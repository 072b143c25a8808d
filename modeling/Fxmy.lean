import Fxmy.Common
import Fxmy.Lib.Block
import Fxmy.Lib.Chunks
import Fxmy.Lib.Dialogue
import Fxmy.Lib.Quoting
import Fxmy.Lib.Lexing
import Fxmy.Lib.Cuts
import Fxmy.Lib.Stages
import Fxmy.Lib.Utf8
import Fxmy.Read
import Fxmy.String
import Fxmy.Write
import Fxmy.Odbc
import Fxmy.Query
import Fxmy.Conn
import Fxmy.Main
import Fxmy.MainWin
import Fxmy.MainEpoll
import Fxmy.Lib.Machine
import Fxmy.Requests
import Fxmy.ServerWin
import Fxmy.Verify.ConnectionTable
import Fxmy.Verify.Slots
import Fxmy.Verify.Lcb
import Fxmy.Verify.Decode
import Fxmy.Verify.Utf8
import Fxmy.Verify.Packet
import Fxmy.Verify.PacketReads
import Fxmy.Verify.AuthPacket
import Fxmy.Verify.Search
import Fxmy.Verify.Escapes
import Fxmy.Verify.Stream
import Fxmy.Verify.Separators
import Fxmy.Verify.Dispatch
import Fxmy.Verify.Limit
import Fxmy.Verify.Moves
import Fxmy.Verify.Widening
import Fxmy.Verify.Refusal
import Fxmy.Verify.Literals
import Fxmy.Verify.Translate
import Fxmy.Verify.TopClause
import Fxmy.Verify.Framing
import Fxmy.Verify.Receiving
import Fxmy.Verify.Writers
import Fxmy.Verify.Sending
import Fxmy.Verify.Returns
import Fxmy.Verify.Outcome
import Fxmy.Verify.Results
import Fxmy.Verify.Exchanges
import Fxmy.Verify.Asking
import Fxmy.Verify.Balance
import Fxmy.Verify.Told
import Fxmy.Verify.Reports
import Fxmy.Verify.Concat
import Fxmy.Verify.Procedures
import Fxmy.Verify.ShowTables
import Fxmy.Verify.Fields
import Fxmy.Verify.Epoll
import Fxmy.Verify.Transfers
import Fxmy.Verify.Unicode
import Fxmy.Verify.Narrow
import Fxmy.Verify.Mem
import Fxmy.Verify.Log
import Fxmy.Verify.ServerWin
import Fxmy.Verify.Atomic
import Fxmy.Verify.Requests
import Fxmy.Verify.Sessions
import Fxmy.Verify.Conversations
import Fxmy.Verify.Answers
import Fxmy.Verify.Completion
