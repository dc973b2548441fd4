import CalcBridge.Tokens
import CalcBridge.Vartypes
import CalcBridge.Bridge.Pushing
import CalcBridge.Bridge.Supervisor
import CalcBridge.Net.WsStream
import CalcBridge.Relay.FramedHandler
import CalcBridge.Relay.ModelCall
import CalcBridge.Listening
import CalcBridge.Exchanges
import CalcBridge.Relay.Workers
import CalcBridge.Relay.WsBridge
import CalcBridge.Net.ShortWrites
import CalcBridge.Net.Closing
import CalcBridge.Wire.Talk
import CalcBridge.SendListen
import CalcBridge.NoEot
import CalcBridge.NumberLists
import CalcBridge.Decoding
import CalcBridge.RecvVar
import CalcBridge.Relay.Newlines
import CalcBridge.Relay.Packing
import CalcBridge.Relay.TrailingSpaces
import CalcBridge.Relay.SendAll
import CalcBridge.Bastok
import CalcBridge.Program8xp
import CalcBridge.Reals
import CalcBridge.Wire.Traced
import CalcBridge.Relay.ActiveClient
import CalcBridge.Console
import CalcBridge.Calc.Delivery
import CalcBridge.Relay.WssPath
import CalcBridge.Console.Reconnects
import CalcBridge.Console.Page
import CalcBridge.Console.Ingest
import CalcBridge.Deck.Questions
import CalcBridge.Deck.Answers
import CalcBridge.Deck.Rounds
import CalcBridge.Deck.Loop
import CalcBridge.Deck.Arrival
import CalcBridge.Calc.PlainFrames
import CalcBridge.Sessions
import CalcBridge.Puts
import CalcBridge.Bridge.Lifecycle
import CalcBridge.Bridge.Passes
import CalcBridge.Wire.Packets
