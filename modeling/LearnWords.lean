import LearnWords.Lib.Machine
import LearnWords.Lib.Coro
import LearnWords.Lib.Exclusion
import LearnWords.Lib.Interleaving
import LearnWords.Lib.NodeList
import LearnWords.Lib.Logs
import LearnWords.Lib.Framing
import LearnWords.Lib.Utf
import LearnWords.Lib.Incremental
import LearnWords.Lib.Typestate
import LearnWords.Json
import LearnWords.JsonBody
import LearnWords.Settings
import LearnWords.Database
import LearnWords.Response
import LearnWords.Connection
import LearnWords.Connection.Completion
import LearnWords.Connection.Exclusive
import LearnWords.UserDialog
import LearnWords.UserDialog.Routing
import LearnWords.UserDialog.Command
import LearnWords.UserDialog.Recovery
import LearnWords.UserDialog.Concurrent
import LearnWords.LongPolling
import LearnWords.Bot
import LearnWords.Bot.Progress
import LearnWords.Bot.Delivery
import LearnWords.Bot.Exclusion
import LearnWords.Bot.Replies
import LearnWords.Bot.Poll
import LearnWords.LongPolling.Request
import LearnWords.Lib.Script
import LearnWords.Catalog
import LearnWords.Services
import LearnWords.Credentials
import LearnWords.Inventory
import LearnWords.Inventory.Init
import LearnWords.Inventory.Stop
import LearnWords.Inventory.LifeCycle
import LearnWords.Application
import LearnWords.Process
import LearnWords.Process.Stage
import LearnWords.Process.Runs
import LearnWords.Process.Recovery
import LearnWords.Bot.Channel
import LearnWords.Connection.Whole
import LearnWords.Bot.Simulation
import LearnWords.Bot.Lockout
import LearnWords.Lib.Quiescence
import LearnWords.Bot.Answers
