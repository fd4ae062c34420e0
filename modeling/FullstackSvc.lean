import FullstackSvc.Async.Program
import FullstackSvc.Async.Pool
import FullstackSvc.Async.RelyGuarantee
import FullstackSvc.Async.Triple
import FullstackSvc.Stream.Cutter
import FullstackSvc.Text.Utf8
import FullstackSvc.Text.Search
import FullstackSvc.Text.Decimal
import FullstackSvc.Text.Json
import FullstackSvc.Text.JsonText
import FullstackSvc.Text.JsonMap
import FullstackSvc.Text.Ulid
import FullstackSvc.Text.Path
import FullstackSvc.Execution.World
import FullstackSvc.Execution.Programs
import FullstackSvc.Execution.Calls
import FullstackSvc.Execution.Ownership
import FullstackSvc.Execution.Publication
import FullstackSvc.Lsp.UriTransformer
import FullstackSvc.Lsp.ResponseBuffer
import FullstackSvc.Lsp.Message
import FullstackSvc.Lsp.ClientChannel
import FullstackSvc.Lsp.ContainerChannel
import FullstackSvc.Execution.Creation
import FullstackSvc.Execution.Results
import FullstackSvc.Execution.Visible
import FullstackSvc.LanguageServer.Agreement
import FullstackSvc.LanguageServer.Cleanup
import FullstackSvc.LanguageServer.Isolation
import FullstackSvc.LanguageServer.Sweeps
import FullstackSvc.LanguageServer.Relay
import FullstackSvc.Lsp.FrameDecoding
import FullstackSvc.Registration.Unique
import FullstackSvc.Async.Local
import FullstackSvc.Execution.Removal
import FullstackSvc.Execution.Verdict
import FullstackSvc.LanguageServer.Confinement
import FullstackSvc.LanguageServer.Uploads
import FullstackSvc.Lsp.ResponseStream
import FullstackSvc.Async.Machine
import FullstackSvc.Cli.ActiveSession
import FullstackSvc.Cli.OpenSession
import FullstackSvc.Cli.Connecting
import FullstackSvc.Execution.Paths
import FullstackSvc.Execution.Reports
import FullstackSvc.LanguageServer.Paths
import FullstackSvc.LanguageServer.UploadSequence
import FullstackSvc.Lsp.Rewriting
import FullstackSvc.Lsp.Shape
import FullstackSvc.Auth.Header
import FullstackSvc.Registration.Accounts
import FullstackSvc.Execution.Progress
import FullstackSvc.Execution.Mounts
import FullstackSvc.Cli.Polling
