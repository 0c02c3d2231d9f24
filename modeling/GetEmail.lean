import GetEmail.Nom.Basic
import GetEmail.Nom.Stable
import GetEmail.Pop.Command
import GetEmail.Pop.Parser
import GetEmail.Pop.ParserStable
import GetEmail.Pop.ParserLines
import GetEmail.Pop.Rfc822
import GetEmail.Exec.Basic
import GetEmail.Exec.Loop
import GetEmail.Pop.Buffer
import GetEmail.Pop.Stream
import GetEmail.Pop.StreamSteps
import GetEmail.Pop.Polling
import GetEmail.Pop.Sequential
import GetEmail.Pop.Chunking
import GetEmail.Pop.Independence
import GetEmail.Pop.Client
import GetEmail.Pop.Operations
import GetEmail.Pop.Deletion
import GetEmail.Pop.ParserKinds
import GetEmail.Pop.Stuck
import GetEmail.Pop.Frame
import GetEmail.Pop.Authentication
import GetEmail.Pop.Rejection
import GetEmail.Pop.Panics
import GetEmail.Exec.Agree
import GetEmail.Pop.Pairing
import GetEmail.Pop.Cancellation
import GetEmail.Pop.Phases
import GetEmail.Pop.Restrictions
import GetEmail.Pop.SingleLines
import GetEmail.Collections.HashMap
import GetEmail.Mail.ServerMap
import GetEmail.Collections.Serde
import GetEmail.Mail.Serialized
import GetEmail.Imap.SequenceSet
import GetEmail.Mail.ImapProtocol
import GetEmail.Mail.Crawl
import GetEmail.Pop.Listings
import GetEmail.Pop.Ending
import GetEmail.Pop.Closing
import GetEmail.Pop.Upcoming
import GetEmail.Pop.Exchanges
import GetEmail.Mail.Filters
import GetEmail.Pop.RequestText
import GetEmail.Pop.Capabilities
import GetEmail.Pop.CapabilityWords
import GetEmail.Pop.Numbers
import GetEmail.Pop.Announced
import GetEmail.Mail.Folders
import GetEmail.Nom.Asks
import GetEmail.Pop.MessageSize
import GetEmail.Pop.Rounds
import GetEmail.Pop.Allocation
import GetEmail.Exec.Word
import GetEmail.Pop.Growth
import GetEmail.Exec.Simulation
import GetEmail.Mail.Mailbox
import GetEmail.Mail.Pop3Protocol
import GetEmail.Pop.Conversation
import GetEmail.Pop.Decimals
import GetEmail.Pop.Maildrop
import GetEmail.Pop.Served
import GetEmail.Mail.Connect
import GetEmail.Mail.Payloads
import GetEmail.Mail.Pop3Crawl
import GetEmail.Mail.Pop3Reading
import GetEmail.Exec.Output
import GetEmail.Mail.Dial
import GetEmail.Mail.ReadOnly
import GetEmail.Mail.ImapReading
