import FullstackSvc.Async.Typestate
import FullstackSvc.Auth.Header
import FullstackSvc.Registration.PasswordTable
import FullstackSvc.Registration.Unique
import FullstackSvc.Text.DrawnIds

/-!
# Accounts, in any order of steps

`Unique.lean` needs its registrations to check one after the other, and
`PasswordTable.lean` calls that come one at a time.  Here nothing is assumed of
the order: registrations overlap, and any call of theirs may fail.

* `registrationTypestate`: what a registration may do next, by what it has done.
* `Tallied`: the table and the open transactions are those of the views.
* `rows_are_registrations`: **the table holds one row for every registration that has
  returned, and no other**.
* `login_follows_registrations`: so a login is decided by the registrations that have
  returned, and its token is good for that user.
-/

namespace FullstackSvc.Registration

open Text Async Auth

variable {C : Config} {pid : Nat} {s s' : World}

/-! ### What a registration may do -/

/-- What can be told of a registration from its own steps. -/
structure Registrant where
  request : Option Request
  /-- The id that it has drawn. -/
  fresh : Option JsString
  /-- The rows of its open transaction. -/
  rows : List User
  committed : List User

/-- The row is what was asked for: the email, and a hash of the password. -/
def Registrant.Fills (C : Config) (v : Registrant) (row : User) : Prop :=
  ∃ password, v.request = some (.register row.email password) ∧
    row.passwordHash = C.hmac row.salt password

/-- Who has committed awaits nothing more. -/
def Registrant.allows (C : Config) (v : Registrant) (c : Cmd) : Prop :=
  v.committed = [] ∧
    match c with
    | .saveUser row => v.rows = [] ∧ v.Fills C row ∧ v.fresh = some row.id
    | .commitTransaction => ∃ row, v.rows = [row]
    | _ => True

def registrationTypestate (C : Config) : Typestate sig JsError Registrant where
  allows := Registrant.allows C
  answered v
    | .startTransaction, .ok _ => { v with rows := [] }
    | .saveUser row, .ok _ => { v with rows := v.rows ++ [row] }
    | .commitTransaction, .ok _ => { v with rows := [], committed := v.committed ++ v.rows }
    | .rollbackTransaction, .ok _ => { v with rows := [] }
    | _, _ => v
  computed v
    | .ulid, id => { v with fresh := some id }
    | _, _ => v

section Programs

variable {email password : JsString}

/-- It serves the request, and has committed nothing. -/
def Serves (email password : JsString) (v : Registrant) : Prop :=
  v.request = some (.register email password) ∧ v.committed = []

/-- Its transaction holds these rows. -/
def Holding (email password : JsString) (rows : List User) (v : Registrant) : Prop :=
  Serves email password v ∧ v.rows = rows

/-- A call that fails leaves the view as it is. -/
theorem answered_error {v : Registrant} {c : Cmd} {e : JsError} :
    (registrationTypestate C).answered v c (.error e) = v := by
  cases c with
  | _ => rfl

theorem does_createPasswordHash :
    (registrationTypestate C).Does (Holding email password []) (createPasswordHash C password)
      (fun hashed v => Holding email password [] v ∧ hashed.hash = C.hmac hashed.salt password)
      fun _ => Serves email password :=
  .bind (fun _ => Holding email password []) (.op fun _ _ hv => hv) fun _ =>
    .ret fun _ hv => ⟨hv, rfl⟩

theorem does_createUser :
    (registrationTypestate C).Does (Holding email password []) (createUser C email password)
      (fun user => Holding email password [user]) fun _ => Serves email password := by
  refine .bind _ does_createPasswordHash fun hashed => ?_
  refine .bind (fun id v => (Holding email password [] v ∧
    hashed.hash = C.hmac hashed.salt password) ∧ v.fresh = some id) (.op fun _ _ hv => ⟨hv, rfl⟩)
    fun id => ?_
  refine .bind (fun _ v => (Holding email password [] v ∧
    hashed.hash = C.hmac hashed.salt password) ∧ v.fresh = some id) (.op fun _ _ hv => hv)
    fun createdAt => ?_
  refine .bind (fun _ => Holding email password [⟨id, email, hashed.hash, hashed.salt, createdAt⟩])
    (.call ?_ ?_ ?_) fun _ => .ret fun _ hv => hv
  · rintro v ⟨⟨⟨⟨hreq, hnone⟩, hrows⟩, hhash⟩, hfresh⟩
    exact ⟨hnone, hrows, ⟨password, hreq, hhash⟩, hfresh⟩
  · rintro v a ⟨⟨⟨hserves, hrows⟩, -⟩, -⟩
    refine ⟨hserves, ?_⟩
    show v.rows ++ [_] = _
    rw [hrows, List.nil_append]
  · rintro v e ⟨⟨⟨hserves, -⟩, -⟩, -⟩
    exact hserves

/-- **A registration commits the row that it returns**, or nothing. -/
theorem does_register :
    (registrationTypestate C).Does (Serves email password) (register C email password)
      (fun user v => v.committed = [user]) fun _ v => v.committed = [] := by
  refine .handle (fun _ => Serves email password) ?_ fun e => ?_
  · refine .bind (fun _ => Holding email password []) (.call (fun v hv => ⟨hv.2, trivial⟩)
      (fun v a hv => ⟨hv, rfl⟩) fun v e hv => hv) fun _ => ?_
    refine .bind (fun user => Holding email password [user]) ?_ fun user => ?_
    · refine .bind (fun _ => Holding email password []) (.call (fun v hv => ⟨hv.1.2, trivial⟩)
        (fun v a hv => hv) fun v e hv => hv.1) fun found => ?_
      cases found with
      | some prevUser => exact .fail fun _ hv => hv.1
      | none => exact does_createUser
    · refine .bind (fun _ v => v.committed = [user]) (.call ?_ ?_ ?_) fun _ => .ret fun _ hv => hv
      · exact fun v hv => ⟨hv.1.2, user, hv.2⟩
      · intro v a hv
        show v.committed ++ v.rows = _
        rw [hv.1.2, hv.2, List.nil_append]
      · exact fun v e hv => hv.1
  · refine .bind (fun _ => Serves email password) (.handle (fun _ => Serves email password)
      (.call (fun v hv => ⟨hv.2, trivial⟩) (fun v a hv => hv) fun v e hv => hv)
      fun _ => .ret fun _ hv => hv) fun _ => .fail fun v hv => hv.2

end Programs

/-! ### The table and the views -/

/-- What a view says of the shared state. -/
structure Vouches (C : Config) (s : World) (pid : Nat) (v : Registrant) : Prop where
  request : s.calls[pid]? = v.request
  rows : (s.transactions pid).rows = v.rows
  committed : C.ulid.rowsOf s.drawnBy User.id pid s.users = v.committed
  fills : ∀ row ∈ v.rows ++ v.committed, v.Fills C row ∧ s.Owns C pid row.id
  fresh : ∀ id, v.fresh = some id → s.Owns C pid id

/-- Every row has its process, and the views are right. -/
structure Tallied (C : Config) (s : World) (views : Nat → Registrant) : Prop where
  booked : C.ulid.Booked s.drawnBy User.id s.users
  vouches : ∀ pid, Vouches C s pid (views pid)

/-- Nothing of this process changes. -/
structure Beside (C : Config) (pid : Nat) (s s' : World) : Prop where
  calls : s'.calls[pid]? = s.calls[pid]?
  rows : (s'.transactions pid).rows = (s.transactions pid).rows
  committed : C.ulid.rowsOf s'.drawnBy User.id pid s'.users =
    C.ulid.rowsOf s.drawnBy User.id pid s.users
  drawn : ∃ l, s'.drawnBy = s.drawnBy ++ l

theorem Vouches.beside {v : Registrant} (h : Vouches C s pid v) (hb : Beside C pid s s') :
    Vouches C s' pid v := by
  obtain ⟨l, hl⟩ := hb.drawn
  refine ⟨hb.calls.trans h.request, hb.rows.trans h.rows, hb.committed.trans h.committed,
    fun row hrow => ?_, fun id hid => ?_⟩
  · obtain ⟨hfills, howns⟩ := h.fills row hrow
    rw [World.Owns, hl]
    exact ⟨hfills, howns.mono l⟩
  · rw [World.Owns, hl]
    exact (h.fresh id hid).mono l

variable {views : Nat → Registrant}

/-- A step of one process. -/
theorem Tallied.update (h : Tallied C s views) {v : Registrant}
    (hbooked : C.ulid.Booked s'.drawnBy User.id s'.users)
    (hbeside : ∀ p ≠ pid, Beside C p s s') (hown : Vouches C s' pid v) :
    Tallied C s' (Function.update views pid v) := by
  refine ⟨hbooked, fun p => ?_⟩
  by_cases hp : p = pid
  · subst hp
    rw [Function.update_self]
    exact hown
  · rw [Function.update_of_ne hp]
    exact (h.vouches p).beside (hbeside p hp)

/-- A step within a transaction. -/
theorem Tallied.within (h : Tallied C s views) (rows : List User)
    (hd : s'.drawnBy = s.drawnBy) (hc : s'.calls = s.calls) (hu : s'.users = s.users)
    (ht : ∀ p ≠ pid, s'.transactions p = s.transactions p)
    (hrows : (s'.transactions pid).rows = rows)
    (hfills : ∀ row ∈ rows, (views pid).Fills C row ∧ s.Owns C pid row.id) :
    Tallied C s' (Function.update views pid { views pid with rows := rows }) := by
  have hv := h.vouches pid
  refine h.update (by rw [hd, hu]; exact h.booked) (fun p hp => ⟨by rw [hc], by rw [ht p hp],
    by rw [hd, hu], [], by rw [hd, List.append_nil]⟩) ⟨?_, hrows, ?_, fun row hrow => ?_, ?_⟩
  · rw [hc]
    exact hv.request
  · rw [hd, hu]
    exact hv.committed
  · rw [World.Owns, hd]
    rcases List.mem_append.mp hrow with hrow | hrow
    · exact hfills row hrow
    · exact hv.fills row (List.mem_append_right _ hrow)
  · intro id hid
    rw [World.Owns, hd]
    exact hv.fresh id hid

/-- An id is drawn. -/
theorem Tallied.draw (h : Tallied C s views) :
    Tallied C { s with drawnBy := s.drawnBy ++ [pid] }
      (Function.update views pid
        { views pid with fresh := some (C.ulid.text s.drawnBy.length) }) := by
  have hv := h.vouches pid
  have hsame : ∀ p, C.ulid.rowsOf (s.drawnBy ++ [pid]) User.id p s.users =
      C.ulid.rowsOf s.drawnBy User.id p s.users := fun p => UlidSource.rowsOf_of_draws h.booked _
  refine h.update (h.booked.draws _) (fun p _ => ⟨rfl, rfl, hsame p, [pid], rfl⟩)
    ⟨hv.request, hv.rows, (hsame pid).trans hv.committed, fun row hrow => ?_, ?_⟩
  · obtain ⟨hfills, howns⟩ := hv.fills row hrow
    exact ⟨hfills, howns.mono _⟩
  · intro id hid
    obtain rfl := Option.some.inj hid
    exact C.ulid.drew_concat _ _

/-- **A commit**: nobody else has the id of the row. -/
theorem Tallied.commit (h : Tallied C s views) {row : User} (hnone : (views pid).committed = [])
    (hrow : (views pid).rows = [row]) :
    Tallied C (s.commit pid) (Function.update views pid
      { views pid with rows := [], committed := (views pid).committed ++ (views pid).rows }) := by
  have hv := h.vouches pid
  have hfills := hv.fills row (by rw [hrow]; exact List.mem_cons_self ..)
  have husers : (s.commit pid).users = s.users ++ [row] := by rw [commit_users, hv.rows, hrow]
  have hdrawn : (s.commit pid).drawnBy = s.drawnBy := rfl
  have hnew : ∀ user ∈ s.users, user.id ≠ row.id := by
    intro user hu he
    have hmem : user ∈ C.ulid.rowsOf s.drawnBy User.id pid s.users :=
      UlidSource.mem_rowsOf.mpr ⟨hu, by rw [he]; exact hfills.2⟩
    rw [hv.committed, hnone] at hmem
    exact List.not_mem_nil hmem
  have hbooked := h.booked.concat hfills.2 hnew
  refine h.update (by rw [husers]; exact hbooked) (fun p hp => ⟨rfl, ?_, ?_, [], ?_⟩)
    ⟨hv.request, ?_, ?_, ?_, hv.fresh⟩
  · show (Function.update s.transactions pid _ p).rows = _
    rw [Function.update_of_ne hp]
  · have hother : ∀ user ∈ [row], ¬ C.ulid.Drew s.drawnBy p user.id := by
      intro user hu hd
      rw [List.mem_singleton.mp hu] at hd
      exact hp (hd.unique hfills.2)
    rw [husers, hdrawn, UlidSource.rowsOf_append, UlidSource.rowsOf_others hother,
      List.append_nil]
  · rw [hdrawn, List.append_nil]
  · show (Function.update s.transactions pid _ pid).rows = []
    rw [Function.update_self]
  · show C.ulid.rowsOf s.drawnBy User.id pid (s.commit pid).users = _
    rw [husers, UlidSource.rowsOf_concat_own hfills.2, hv.committed, hrow]
  · intro user hu
    rw [List.nil_append] at hu
    exact hv.fills user (by simpa [or_comm] using hu)

/-! ### Every step keeps the tally -/

theorem tallied_perform {c : Cmd} {r : Reply} {x : Except JsError (sig.Res c)}
    (h : Tallied C s views) (hallows : (views pid).allows C c)
    (hx : perform C pid c r s = some (x, s')) :
    Tallied C s' (Function.update views pid
      ((registrationTypestate C).answered (views pid) c x)) := by
  have hv := h.vouches pid
  have hold : ∀ row ∈ (views pid).rows, (views pid).Fills C row ∧ s.Owns C pid row.id :=
    fun row hrow => hv.fills row (List.mem_append_left _ hrow)
  have hleave : Tallied C (s.leave pid) (Function.update views pid (views pid)) :=
    h.within (views pid).rows rfl rfl rfl (fun _ _ => rfl) hv.rows hold
  have hempty : Tallied C (s.setTransaction pid ⟨none, []⟩)
      (Function.update views pid { views pid with rows := [] }) :=
    h.within [] rfl rfl rfl (fun p hp => Function.update_of_ne hp _ _)
      (by show (Function.update s.transactions pid _ pid).rows = []; rw [Function.update_self])
      fun _ hrow => absurd hrow List.not_mem_nil
  cases r with
  | fails name message =>
    obtain ⟨rfl, rfl⟩ := Prod.mk.inj (Option.some.inj hx)
    rw [answered_error]
    exact hleave
  | done =>
    have hx := Option.some.inj hx
    cases c with
    | startTransaction =>
      obtain ⟨rfl, rfl⟩ := Prod.mk.inj hx
      exact hempty
    | rollbackTransaction =>
      obtain ⟨rfl, rfl⟩ := Prod.mk.inj hx
      exact hempty
    | findOneBy email =>
      obtain ⟨rfl, rfl⟩ := Prod.mk.inj hx
      refine h.within (views pid).rows rfl rfl rfl (fun p hp => Function.update_of_ne hp _ _) ?_ hold
      show (Function.update s.transactions pid _ pid).rows = _
      rw [Function.update_self]
      exact hv.rows
    | commitTransaction =>
      obtain ⟨rfl, rfl⟩ := Prod.mk.inj hx
      obtain ⟨hnone, row, hrow⟩ := hallows
      exact h.commit hnone hrow
    | saveUser row =>
      obtain ⟨-, hrows, hfills, hfresh⟩ := hallows
      rw [performDone] at hx
      split at hx
      · obtain ⟨rfl, rfl⟩ := Prod.mk.inj hx
        rw [answered_error]
        exact hleave
      · split at hx
        · obtain ⟨rfl, rfl⟩ := Prod.mk.inj hx
          rw [answered_error]
          exact hleave
        · obtain ⟨rfl, rfl⟩ := Prod.mk.inj hx
          refine h.within _ rfl rfl rfl (fun p hp => Function.update_of_ne hp _ _) ?_ ?_
          · show (Function.update s.transactions pid _ pid).rows = _
            rw [Function.update_self]
            exact congrArg (· ++ [row]) hv.rows
          · intro user hu
            rw [hrows, List.nil_append, List.mem_singleton] at hu
            rw [hu]
            exact ⟨hfills, hv.fresh _ hfresh⟩

/-- A registration begins with nothing. -/
def Begins : Request → Registrant → Prop
  | .register email password, v => Serves email password v

def Ends : (c : Request) → Except JsError User → Registrant → Prop
  | .register _ _, .ok user, v => v.committed = [user]
  | .register _ _, .error _, v => v.committed = []

theorem tallied_accept {c : Request} (h : Tallied C s views) :
    ∃ v, Begins c v ∧ Tallied C { s with calls := s.calls ++ [c] }
      (Function.update views s.calls.length v) := by
  have hv := h.vouches s.calls.length
  have hnone : (views s.calls.length).request = none := by
    rw [← hv.request]
    exact List.getElem?_eq_none (Nat.le_refl _)
  have hnil : (views s.calls.length).rows ++ (views s.calls.length).committed = [] := by
    rw [List.eq_nil_iff_forall_not_mem]
    intro row hrow
    obtain ⟨⟨password, hreq, -⟩, -⟩ := hv.fills row hrow
    rw [hnone] at hreq
    cases hreq
  obtain ⟨hrows, hcommitted⟩ := List.append_eq_nil_iff.mp hnil
  obtain ⟨email, password⟩ := c
  refine ⟨{ views s.calls.length with request := some (.register email password) },
    ⟨rfl, hcommitted⟩, h.update h.booked (fun p hp => ⟨?_, rfl, rfl, [], ?_⟩)
      ⟨List.getElem?_concat_length, hv.rows, hv.committed, fun row hrow => ?_, hv.fresh⟩⟩
  · show (s.calls ++ [_])[p]? = s.calls[p]?
    rcases Nat.lt_or_gt_of_ne hp with hlt | hgt
    · rw [List.getElem?_append_left hlt]
    · rw [List.getElem?_eq_none (by rw [List.length_append, List.length_singleton]; omega),
        List.getElem?_eq_none (by omega)]
  · exact (List.append_nil _).symm
  · rw [show _ = [] from hnil] at hrow
    exact absurd hrow List.not_mem_nil

theorem kept_registrationTypestate :
    (registrationTypestate C).Kept (service C) (fun σ _ => Linked σ) (Tallied C) Begins Ends where
  perform _ h hallows hx := tallied_perform h hallows hx
  compute {pid o s views} h := by
    cases o with
    | ulid => exact h.draw
    | now =>
      show Tallied C s (Function.update views pid (views pid))
      rw [Function.update_eq_self]
      exact h
    | randomHex =>
      have hv := h.vouches pid
      exact h.within (views pid).rows rfl rfl rfl (fun _ _ => rfl) hv.rows fun row hrow =>
        hv.fills row (List.mem_append_left _ hrow)
  accept {σ c s views} hl h ha := by
    obtain rfl := Option.some.inj ha
    have hlen : σ.shared.calls.length = σ.procs.length := by
      rw [hl]
      exact List.length_map _
    rw [← hlen]
    exact tallied_accept h
  env {σ e s views} _ h he := by
    obtain rfl := Option.some.inj he
    exact ⟨h.booked, fun pid => (h.vouches pid).beside ⟨rfl, rfl, rfl, [], (List.append_nil _).symm⟩⟩
  obeys c v hv := by
    obtain ⟨email, password⟩ := c
    refine (does_register v hv).mono fun x v hx => ?_
    cases x with
    | ok user => exact hx
    | error e => exact hx

theorem tallied_initial : Tallied C World.initial fun _ => ⟨none, none, [], []⟩ where
  booked := UlidSource.booked_nil
  vouches _ := ⟨rfl, rfl, rfl, fun _ hrow => absurd hrow List.not_mem_nil, fun _ hid => by cases hid⟩

/-- In every state of a run there are views that are right. -/
theorem tallied_of_reaches {σ : (service C).Sys}
    (h : Service.Reaches Service.anyEvent (start C) σ) :
    ∃ views, (registrationTypestate C).Abides (Tallied C) Ends σ views := by
  have hr := (h.strengthen (fun _ _ _ => linked_step) (rfl : Linked (start C))).2
  exact Typestate.abides_of_reaches kept_registrationTypestate
    (Typestate.abides_start tallied_initial) (hr.mono fun _ _ hok => hok.1)

/-! ### The table -/

/-- The registration has returned this user. -/
def Returned (σ : (service C).Sys) (pid : Nat) (email password : JsString) (user : User) : Prop :=
  ∃ alive, σ.procs[pid]? = some ⟨.register email password, .ret user, alive⟩

/-- The row is what the registration was asked for. -/
def MadeFor (C : Config) (email password : JsString) (user : User) : Prop :=
  user.email = email ∧ user.passwordHash = C.hmac user.salt password

/-- The user that a registration has returned. -/
def returnedUser : (service C).Proc → Option User
  | ⟨.register _ _, .ret user, _⟩ => some user
  | _ => none

variable {σ : (service C).Sys} {email password : JsString} {user : User}

theorem returned_of_returnedUser {p : (service C).Proc} (hp : σ.procs[pid]? = some p)
    (h : returnedUser p = some user) : ∃ email password, Returned σ pid email password user := by
  obtain ⟨⟨email, password⟩, prog, alive⟩ := p
  cases prog with
  | ret user' =>
    obtain rfl := Option.some.inj h
    exact ⟨email, password, alive, hp⟩
  | fail e => cases h
  | await c k => cases h
  | sync o k => cases h

/-- A registration that has returned has its one row. -/
theorem row_of_returned (hab : (registrationTypestate C).Abides (Tallied C) Ends σ views)
    (hl : Linked σ) (h : Returned σ pid email password user) :
    C.ulid.rowsOf σ.shared.drawnBy User.id pid σ.shared.users = [user] ∧
      MadeFor C email password user := by
  obtain ⟨alive, hp⟩ := h
  have hend : (views pid).committed = [user] := hab.returned hp
  have hv := hab.shared.vouches pid
  obtain ⟨⟨password', hreq, hhash⟩, -⟩ := hv.fills user (by
    rw [hend]
    exact List.mem_append_right _ (List.mem_cons_self ..))
  have hcall : σ.shared.calls[pid]? = some (.register email password) := by
    rw [hl, List.getElem?_map, hp]
    rfl
  have heq := hreq.symm.trans (hv.request.symm.trans hcall)
  simp only [Option.some.injEq, Request.register.injEq] at heq
  obtain ⟨he, rfl⟩ := heq
  exact ⟨hv.committed.trans hend, he, hhash⟩

/-- Whoever has a row has returned it. -/
theorem returned_of_row (hab : (registrationTypestate C).Abides (Tallied C) Ends σ views)
    (hl : Linked σ) (hparked : ∀ p ∈ σ.procs, p.prog.Parked)
    (hrow : user ∈ C.ulid.rowsOf σ.shared.drawnBy User.id pid σ.shared.users) :
    ∃ email password, Returned σ pid email password user := by
  have hv := hab.shared.vouches pid
  rw [hv.committed] at hrow
  obtain ⟨⟨password, hreq, -⟩, -⟩ := hv.fills user (List.mem_append_right _ hrow)
  obtain ⟨prog, alive, hp⟩ := Service.exists_proc (hl ▸ hv.request.trans hreq)
  have hnone : (views pid).committed ≠ [] := List.ne_nil_of_mem hrow
  cases prog with
  | ret user' =>
    have hend : (views pid).committed = [user'] := hab.returned hp
    rw [hend, List.mem_singleton] at hrow
    rw [hrow]
    exact ⟨_, password, alive, hp⟩
  | fail e => exact absurd (hab.thrown hp) hnone
  | await c k => exact absurd (hab.procs pid _ hp).1.1 hnone
  | sync o k => exact (hparked _ (List.mem_of_getElem? hp)).elim

/-- The process of a row. -/
theorem eq_of_rowsOf {pid' : Nat}
    (h : user ∈ C.ulid.rowsOf s.drawnBy User.id pid s.users)
    (h' : user ∈ C.ulid.rowsOf s.drawnBy User.id pid' s.users) : pid = pid' :=
  (UlidSource.mem_rowsOf.mp h).2.unique (UlidSource.mem_rowsOf.mp h').2

theorem nodup_returnedUser (hab : (registrationTypestate C).Abides (Tallied C) Ends σ views)
    (hl : Linked σ) : (σ.procs.filterMap returnedUser).Nodup := by
  rw [List.Nodup, List.pairwise_filterMap, List.pairwise_iff_getElem]
  intro i j hi hj hlt user hu user' hu' heq
  subst heq
  obtain ⟨email, password, h⟩ := returned_of_returnedUser (List.getElem?_eq_getElem hi) hu
  obtain ⟨email', password', h'⟩ := returned_of_returnedUser (List.getElem?_eq_getElem hj) hu'
  have hrow := (row_of_returned hab hl h).1
  have hrow' := (row_of_returned hab hl h').1
  have hmem : user ∈ C.ulid.rowsOf σ.shared.drawnBy User.id i σ.shared.users := by
    rw [hrow]
    exact List.mem_singleton_self _
  have hmem' : user ∈ C.ulid.rowsOf σ.shared.drawnBy User.id j σ.shared.users := by
    rw [hrow']
    exact List.mem_singleton_self _
  have hsame := eq_of_rowsOf hmem hmem'
  omega

/-- What holds in every state of a run. -/
theorem tallied_state (h : Service.Reaches Service.anyEvent (start C) σ) :
    Linked σ ∧ (∀ p ∈ σ.procs, p.prog.Parked) ∧
      ∃ views, (registrationTypestate C).Abides (Tallied C) Ends σ views :=
  have hnone : ∀ p ∈ (start C).procs, p.prog.Parked := fun _ hp => by cases hp
  ⟨(h.strengthen (fun _ _ _ => linked_step) (rfl : Linked (start C))).1,
    (h.strengthen (fun _ _ _ => Service.parked_step) hnone).1, tallied_of_reaches h⟩

/-- **The table holds one row for every registration that has returned, and no other**,
in whatever order the registrations take their steps and whatever calls fail: the ids
differ, the rows are the users that were returned, and each has the email and a hash of
the password of its request. -/
theorem rows_are_registrations {σ : (service C).Sys}
    (h : Service.Reaches Service.anyEvent (start C) σ) :
    (σ.shared.users.map User.id).Nodup ∧
    σ.shared.users.Perm (σ.procs.filterMap returnedUser) ∧
    ∀ pid email password user, Returned σ pid email password user →
      MadeFor C email password user := by
  obtain ⟨hl, hparked, views, hab⟩ := tallied_state h
  have hbooked := hab.shared.booked
  refine ⟨hbooked.nodup, ?_, fun pid email password user hu => (row_of_returned hab hl hu).2⟩
  rw [List.perm_ext_iff_of_nodup (List.Nodup.of_map _ hbooked.nodup) (nodup_returnedUser hab hl)]
  intro user
  rw [List.mem_filterMap]
  constructor
  · intro hu
    obtain ⟨pid, -, hrow⟩ := hbooked.mem_rowsOf hu
    obtain ⟨email, password, alive, hp⟩ := returned_of_row hab hl hparked hrow
    exact ⟨_, List.mem_of_getElem? hp, rfl⟩
  · rintro ⟨p, hp, hu⟩
    obtain ⟨pid, hpid⟩ := List.mem_iff_getElem?.mp hp
    obtain ⟨email, password, hret⟩ := returned_of_returnedUser hpid hu
    have hrow : user ∈ C.ulid.rowsOf σ.shared.drawnBy User.id pid σ.shared.users := by
      rw [(row_of_returned hab hl hret).1]
      exact List.mem_singleton_self _
    exact (UlidSource.mem_rowsOf.mp hrow).1

/-- Two registrations of one email that overlap both get their row. -/
theorem rows_are_registrations_together :
    ∃ σ : (service Config.plain).Sys,
      Service.run (start Config.plain) registeredTogether = some σ ∧
        σ.shared.users.length = 2 ∧ σ.shared.users.Perm (σ.procs.filterMap returnedUser) := by
  have hrun : (Service.run (start Config.plain) registeredTogether).map
      (fun σ => σ.shared.users.length) = some 2 := by decide +kernel
  obtain ⟨σ, hσ, hlen⟩ := Option.map_eq_some_iff.mp hrun
  exact ⟨σ, hσ, hlen,
    (rows_are_registrations (Service.reaches_of_run hσ fun _ _ _ => trivial)).2.1⟩

/-! ### Logins -/

section Logins

variable {A : Accounts}

/-- The text is a token, and `Bearer <token>` is accepted as this user and as nobody else
for a day: under HTTP, and on a socket. -/
def Admits (A : Accounts) (token : JsString) (signed : Nat) (userId : JsString) : Prop :=
  ∀ now, Unexpired oneDay signed now → ∀ u,
    (AcceptsHttp (A.jwt.userIdAt A.secret now) (js "Bearer " ++ token) u ↔ u = userId) ∧
    ∀ {N : Type} (G : LanguageServer.Config N) (s : LanguageServer.World),
      G.verify = A.jwt.userIdAt A.secret now →
        (AcceptsSocket G s (js "Bearer " ++ token) u ↔ u = userId)

/-- The tokens of users have no blank, as those of `jsonwebtoken` have none. -/
def Accounts.Compact (A : Accounts) : Prop :=
  ∀ n signed, TokenManager.create A.jwt A.secret ⟨A.ulid.text n⟩ signed ≠ [] ∧
    32 ∉ TokenManager.create A.jwt A.secret ⟨A.ulid.text n⟩ signed

/-- On a socket the header is read less its `Bearer `. -/
theorem acceptsSocket_bearer {N : Type} {G : LanguageServer.Config N} {s : LanguageServer.World}
    {token u : JsString} : AcceptsSocket G s (js "Bearer " ++ token) u ↔ G.verify token = some u := by
  have hread : replace (js "Bearer " ++ token) (js "Bearer ") [] = token := by
    rw [replace_append]
    rfl
  have hne : js "Bearer " ++ token ≠ [] :=
    List.append_ne_nil_of_left_ne_nil (by decide) _
  rw [AcceptsSocket, handleConnection_header, if_neg hne, hread]
  cases G.verify token with
  | none =>
    refine iff_of_false (fun h => ?_) fun h => by cases h
    simp at h
  | some v =>
    constructor
    · intro h
      have huser := List.append_cancel_left h
      cases huser
      rfl
    · intro h
      rw [Option.some.inj h]

theorem admits_create (hJ : A.jwt.Inverts) (hcompact : A.Compact) {drawnBy : List Nat}
    {userId : JsString} (hd : A.ulid.Drew drawnBy pid userId) (signed : Nat) :
    Admits A (TokenManager.create A.jwt A.secret ⟨userId⟩ signed) signed userId := by
  obtain ⟨n, -, rfl⟩ := hd
  obtain ⟨hne, hblank⟩ := hcompact n signed
  intro now hnow u
  have hverify : A.jwt.userIdAt A.secret now
      (TokenManager.create A.jwt A.secret ⟨A.ulid.text n⟩ signed) = some (A.ulid.text n) := by
    rw [Jwt.userIdAt, TokenManager.create, hJ _ _ _ _ _ hnow]
    rfl
  have hiff : A.jwt.userIdAt A.secret now
      (TokenManager.create A.jwt A.secret ⟨A.ulid.text n⟩ signed) = some u ↔ u = A.ulid.text n := by
    rw [hverify, Option.some.injEq]
    exact eq_comm
  refine ⟨?_, fun G s hG => ?_⟩
  · have hsecond : AcceptsHttp (A.jwt.userIdAt A.secret now) (js "Bearer" ++ 32 :: (_ ++ [])) u ↔ _ :=
      acceptsHttp_second (by decide) hblank (Or.inl rfl)
    rw [List.append_nil] at hsecond
    rw [bearer_blank, hsecond, hiff]
    exact and_iff_right hne
  · rw [acceptsSocket_bearer, hG]
    exact hiff

theorem login_none (h : findOneBy A s email = none) :
    login A s email password = .error userNotFound := by
  rw [login, h]
  rfl

theorem login_some (h : findOneBy A s email = some user) :
    login A s email password =
      if A.hmac user.salt password = user.passwordHash then
        .ok (TokenManager.create A.jwt A.secret ⟨user.id⟩ s.now)
      else .error passwordMismatch := by
  rw [login, h]
  by_cases hhash : A.hmac user.salt password = user.passwordHash
  · rw [if_pos hhash]
    show (verifyPassword A password _).bind _ = _
    rw [verifyPassword, if_neg (not_not_intro hhash)]
    rfl
  · rw [if_neg hhash]
    show (verifyPassword A password _).bind _ = _
    rw [verifyPassword, if_pos hhash]
    rfl

variable {σ : (service A.toConfig).Sys}

/-- What the select of a login finds. -/
theorem findOneBy_mem (h : findOneBy A s email = some user) :
    user ∈ s.users ∧ A.sameText user.email email = true :=
  ⟨List.mem_of_find?_eq_some h, List.find?_some (p := fun row : User => A.sameText row.email email) h⟩

/-- A registration of an equal email that has returned. -/
def RegisteredFor (σ : (service A.toConfig).Sys) (email : JsString) (pid : Nat)
    (password : JsString) (user : User) : Prop :=
  ∃ email', Returned σ pid email' password user ∧ A.sameText email' email = true

/-- Whoever is found has returned. -/
theorem registered_of_found (hab : (registrationTypestate A.toConfig).Abides (Tallied A.toConfig)
    Ends σ views) (hl : Linked σ) (hparked : ∀ p ∈ σ.procs, p.prog.Parked)
    (hf : findOneBy A σ.shared email = some user) :
    ∃ pid password, RegisteredFor σ email pid password user := by
  obtain ⟨hmem, hsame⟩ := findOneBy_mem hf
  obtain ⟨pid, -, hrow⟩ := hab.shared.booked.mem_rowsOf hmem
  obtain ⟨email', password, hret⟩ := returned_of_row hab hl hparked hrow
  rw [(row_of_returned hab hl hret).2.1] at hsame
  exact ⟨pid, password, email', hret, hsame⟩

theorem RegisteredFor.row (h : RegisteredFor σ email pid password user)
    (hab : (registrationTypestate A.toConfig).Abides (Tallied A.toConfig) Ends σ views)
    (hl : Linked σ) :
    A.ulid.rowsOf σ.shared.drawnBy User.id pid σ.shared.users = [user] ∧
      A.sameText user.email email = true ∧ user.passwordHash = A.hmac user.salt password := by
  obtain ⟨email', hret, hsame⟩ := h
  obtain ⟨hrow, he, hhash⟩ := row_of_returned hab hl hret
  rw [he]
  exact ⟨hrow, hsame, hhash⟩

/-- The process has drawn the id of its user. -/
theorem RegisteredFor.owns (h : RegisteredFor σ email pid password user)
    (hab : (registrationTypestate A.toConfig).Abides (Tallied A.toConfig) Ends σ views)
    (hl : Linked σ) : user ∈ σ.shared.users ∧ A.ulid.Drew σ.shared.drawnBy pid user.id := by
  refine UlidSource.mem_rowsOf.mp ?_
  rw [(h.row hab hl).1]
  exact List.mem_singleton_self _

/-- An email that somebody has is found. -/
theorem RegisteredFor.found (h : RegisteredFor σ email pid password user)
    (hab : (registrationTypestate A.toConfig).Abides (Tallied A.toConfig) Ends σ views)
    (hl : Linked σ) : ∃ user', findOneBy A σ.shared email = some user' := by
  rw [← Option.isSome_iff_exists]
  exact List.find?_isSome.mpr ⟨user, (h.owns hab hl).1, (h.row hab hl).2.1⟩

/-- **A login is decided by the registrations that have returned**, in every state that they
reach in any order of steps.  Where none is of an equal email the login is refused; a token
is given out for a user whose registration had a password of the same hash; and the only
registration of an email is what the login goes by.  The token is good for this user and
nobody else, for a day, under HTTP and on a socket. -/
theorem login_follows_registrations {σ : (service A.toConfig).Sys} (hJ : A.jwt.Inverts)
    (hcompact : A.Compact) (h : Service.Reaches Service.anyEvent (start A.toConfig) σ)
    (email password : JsString) :
    (login A σ.shared email password = .error userNotFound ↔
      ∀ pid password' user, ¬ RegisteredFor σ email pid password' user) ∧
    (∀ token, login A σ.shared email password = .ok token →
      ∃ pid password' user, RegisteredFor σ email pid password' user ∧
        A.hmac user.salt password = A.hmac user.salt password' ∧
        Admits A token σ.shared.now user.id) ∧
    ∀ pid password' user, RegisteredFor σ email pid password' user →
      (∀ pid' password'' user', RegisteredFor σ email pid' password'' user' → pid' = pid) →
      (A.hmac user.salt password = A.hmac user.salt password' →
        ∃ token, login A σ.shared email password = .ok token ∧
          Admits A token σ.shared.now user.id) ∧
      (A.hmac user.salt password ≠ A.hmac user.salt password' →
        login A σ.shared email password = .error passwordMismatch) := by
  obtain ⟨hl, hparked, views, hab⟩ := tallied_state h
  have hadmits : ∀ {pid password' user}, RegisteredFor σ email pid password' user →
      Admits A (TokenManager.create A.jwt A.secret ⟨user.id⟩ σ.shared.now) σ.shared.now user.id :=
    fun hreg => admits_create hJ hcompact (hreg.owns hab hl).2 _
  refine ⟨⟨fun hlogin pid password' user hreg => ?_, fun hnone => ?_⟩, fun token hlogin => ?_, ?_⟩
  · obtain ⟨user', hf⟩ := hreg.found hab hl
    rw [login_some hf] at hlogin
    split at hlogin
    · cases hlogin
    · cases hlogin
  · cases hf : findOneBy A σ.shared email with
    | none => exact login_none hf
    | some user =>
      obtain ⟨pid, password', hreg⟩ := registered_of_found hab hl hparked hf
      exact absurd hreg (hnone pid password' user)
  · cases hf : findOneBy A σ.shared email with
    | none =>
      rw [login_none hf] at hlogin
      cases hlogin
    | some user =>
      obtain ⟨pid, password', hreg⟩ := registered_of_found hab hl hparked hf
      rw [login_some hf] at hlogin
      split at hlogin
      · rename_i hsame
        obtain rfl := Except.ok.inj hlogin
        exact ⟨pid, password', user, hreg, hsame.trans (hreg.row hab hl).2.2, hadmits hreg⟩
      · cases hlogin
  · intro pid password' user hreg hsole
    obtain ⟨user', hf⟩ := hreg.found hab hl
    obtain ⟨pid', password'', hreg'⟩ := registered_of_found hab hl hparked hf
    obtain rfl := hsole pid' password'' user' hreg'
    -- one registration, one user
    obtain rfl := List.singleton_inj.mp ((hreg.row hab hl).1.symm.trans (hreg'.row hab hl).1)
    rw [login_some hf, (hreg.row hab hl).2.2]
    refine ⟨fun hsame => ?_, fun hne => if_neg hne⟩
    rw [if_pos hsame]
    exact ⟨_, rfl, hadmits hreg⟩

/-- One registration, to its end. -/
def registeredOnce : List (service Accounts.plain.toConfig).Event :=
  .call (.register (js "ann@example.com") (js "pw")) :: List.replicate 4 (.resume 0 .done)

theorem login_follows_registrations_after_one :
    ∃ σ : (service Accounts.plain.toConfig).Sys,
      Service.run (start Accounts.plain.toConfig) registeredOnce = some σ ∧
        ∃ token, login Accounts.plain σ.shared (js "ann@example.com") (js "pw") = .ok token ∧
          ∃ pid password' user, RegisteredFor σ (js "ann@example.com") pid password' user ∧
            Admits Accounts.plain token σ.shared.now user.id := by
  have hJ : Accounts.plain.jwt.Inverts := fun _ _ _ _ _ _ => rfl
  have hcompact : Accounts.plain.Compact := fun n signed => by
    refine ⟨decimal_ne_nil n, fun hblank => ?_⟩
    have hdigit := of_decide_eq_true (isDigit_decimal hblank)
    exact absurd hdigit (by decide)
  have hrun : (Service.run (start Accounts.plain.toConfig) registeredOnce).map (fun σ =>
      (login Accounts.plain σ.shared (js "ann@example.com") (js "pw")).toOption) =
        some (some (js "0")) := by decide +kernel
  obtain ⟨σ, hσ, hlogin⟩ := Option.map_eq_some_iff.mp hrun
  have hlogin : login Accounts.plain σ.shared (js "ann@example.com") (js "pw") = .ok (js "0") := by
    cases hc : login Accounts.plain σ.shared (js "ann@example.com") (js "pw") with
    | ok token =>
      rw [hc] at hlogin
      rw [Option.some.inj hlogin]
    | error e =>
      rw [hc] at hlogin
      cases hlogin
  obtain ⟨pid, password', user, hreg, -, hadmits⟩ := (login_follows_registrations hJ hcompact
    (Service.reaches_of_run hσ fun _ _ _ => trivial) (js "ann@example.com") (js "pw")).2.1 _ hlogin
  exact ⟨σ, hσ, _, hlogin, pid, password', user, hreg, hadmits⟩

end Logins

end FullstackSvc.Registration
