import CPlusServer.Http.BlankLine
import CPlusServer.Http.Client
import CPlusServer.Http.Framing
import CPlusServer.Http.KeepAlive
import CPlusServer.Http.Response
import CPlusServer.Lib.Regular
import CPlusServer.Log.Drain
import CPlusServer.Log.Intact
import CPlusServer.Net.Buffer
import CPlusServer.Net.Delivery
import CPlusServer.Net.Finality
import CPlusServer.Net.Input
import CPlusServer.Net.Output
import CPlusServer.Net.Teardown
import CPlusServer.Timer.NoLoss
import CPlusServer.Http.Loose
import CPlusServer.Log.LogStream
import CPlusServer.Http.Accepted
import CPlusServer.Http.Isolation
import CPlusServer.Http.EmptyValues
import CPlusServer.Lib.Swallow
import CPlusServer.Net.FileResponse
import CPlusServer.Net.SendFile
import CPlusServer.Log.Room
import CPlusServer.Log.Record
import CPlusServer.Timer.Armed
import CPlusServer.Timer.Punctual
import CPlusServer.Lib.Search
import CPlusServer.Http.Upload
import CPlusServer.Http.Persistence
import CPlusServer.Http.Router
import CPlusServer.Net.Registration
import CPlusServer.Net.Standalone
import CPlusServer.Net.BlockingWrite
import CPlusServer.Net.Arrival
import CPlusServer.Net.ThreadPool
import CPlusServer.Http.Skipped
import CPlusServer.Log.LogFile
import CPlusServer.Net.Indices
import CPlusServer.Net.Confinement
import CPlusServer.Http.Pieces
import CPlusServer.Http.Respelled
import CPlusServer.Log.Insertion
import CPlusServer.Log.Statement
import CPlusServer.Lib.Monitor
import CPlusServer.Log.Latch
import CPlusServer.Net.Echo
import CPlusServer.Net.EchoClient
import CPlusServer.Net.EchoSession
import CPlusServer.Net.StartUp
import CPlusServer.Net.Balance
import CPlusServer.Http.Framable
import CPlusServer.Net.HttpSession
import CPlusServer.Net.HttpService
import CPlusServer.Net.EdgeTriggered
import CPlusServer.Net.OverTime
import CPlusServer.Http.Disclosure
import CPlusServer.Log.Rotation
import CPlusServer.Http.Uploaded
import CPlusServer.Http.FileStore
import CPlusServer.Net.HttpServer
import CPlusServer.Lib.InOrder
import CPlusServer.Net.EventLoop
import CPlusServer.Net.Buffered
import CPlusServer.Log.Macro
import CPlusServer.Http.Callback
import CPlusServer.Http.Multipart
import CPlusServer.Lib.Rounding
import CPlusServer.Timer.TimeQueue
