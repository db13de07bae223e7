import LanguageServer.Main
import LanguageServer.Proofs.Publication
import LanguageServer.Proofs.Line
import LanguageServer.Proofs.Position
import LanguageServer.Proofs.Splice
import LanguageServer.Proofs.Denotation
import LanguageServer.Proofs.Replay
import LanguageServer.Proofs.Block
import LanguageServer.Proofs.Message
import LanguageServer.Proofs.Notice
import LanguageServer.Proofs.Conversation
import LanguageServer.Proofs.Response
import LanguageServer.Proofs.Stream
import LanguageServer.Proofs.Lifecycle
import LanguageServer.Proofs.Notification
import LanguageServer.Proofs.Header
import LanguageServer.Proofs.Pattern
import LanguageServer.Proofs.Quoting
import LanguageServer.Proofs.Acceptance
import LanguageServer.Proofs.Epoch
import LanguageServer.Proofs.Resolve
import LanguageServer.Proofs.Written
import LanguageServer.Proofs.Truncation
import LanguageServer.Proofs.Completion
import LanguageServer.Proofs.Lookahead
import LanguageServer.Proofs.Interruption
import LanguageServer.Proofs.Settings
import LanguageServer.Proofs.Independence
import LanguageServer.Proofs.Item
import LanguageServer.Proofs.Enrichment
import LanguageServer.Proofs.Breaks
import LanguageServer.Proofs.Classification
import LanguageServer.Proofs.Queue
import LanguageServer.Proofs.Announcement
import LanguageServer.Proofs.Decoding
import LanguageServer.Proofs.Column
import LanguageServer.Proofs.Decomposition
