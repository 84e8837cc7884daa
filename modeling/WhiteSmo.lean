import WhiteSmo.Library.Delimited
import WhiteSmo.Library.Framing
import WhiteSmo.Library.Field
import WhiteSmo.Library.Decimal
import WhiteSmo.Library.SqlToken
import WhiteSmo.Library.Text
import WhiteSmo.Library.OrderedMap
import WhiteSmo.Library.Transition
import WhiteSmo.Library.Throwing
import WhiteSmo.Library.Mutex
import WhiteSmo.Library.Descriptors
import WhiteSmo.Server.Data
import WhiteSmo.Server.Inbound
import WhiteSmo.Server.Reply
import WhiteSmo.Server.Transport
import WhiteSmo.Server.Login
import WhiteSmo.Server.Parsing
import WhiteSmo.Server.Update
import WhiteSmo.Server.Entry
import WhiteSmo.Server.RoomReply
import WhiteSmo.Server.Settings
import WhiteSmo.Server.Narrowing
import WhiteSmo.Server.Authentication
import WhiteSmo.Server.Faults
import WhiteSmo.Server.Statements
import WhiteSmo.Server.Accounts
import WhiteSmo.Server.Decision
import WhiteSmo.Server.Verdict
import WhiteSmo.Server.Refusals
import WhiteSmo.Server.Isolation
import WhiteSmo.Config.Parser
import WhiteSmo.Config.Map
import WhiteSmo.Config.Reader
import WhiteSmo.Config.Generator
import WhiteSmo.Config.Rewrite
import WhiteSmo.Config.Writer
import WhiteSmo.Config.Written
import WhiteSmo.Config.Preserved
import WhiteSmo.Config.File
import WhiteSmo.Config.Startup
import WhiteSmo.Threads.Shared
import WhiteSmo.Threads.Main
import WhiteSmo.Threads.Listener
import WhiteSmo.Threads.Reader
import WhiteSmo.Threads.World
import WhiteSmo.Threads.Pass
import WhiteSmo.Threads.Membership
import WhiteSmo.Threads.Queues
import WhiteSmo.Threads.Closing
import WhiteSmo.Threads.Inbound
import WhiteSmo.Threads.Address
import WhiteSmo.Threads.Running
import WhiteSmo.Threads.Waiting
import WhiteSmo.Threads.Locking
import WhiteSmo.Threads.Notices
import WhiteSmo.Threads.Joining
import WhiteSmo.Threads.Greeting
import WhiteSmo.Threads.Serial
import WhiteSmo.Threads.Sessions
import WhiteSmo.Threads.Outbound
import WhiteSmo.Threads.Answers
import WhiteSmo.Database.Transaction
import WhiteSmo.Database.Statement
import WhiteSmo.Database.Query
