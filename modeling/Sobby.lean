import Sobby.StepMachine
import Sobby.UpdateHistory
import Sobby.Strings
import Sobby.PathNames
import Sobby.SessionBuffer
import Sobby.SessionAutosave
import Sobby.FolderAutosave
import Sobby.FolderFiles
import Sobby.FolderStarvation
import Sobby.ServerSaves
import Sobby.SavedFiles
import Sobby.ServerShutdown
import Sobby.InterruptedSaves
import Sobby.Histories
import Sobby.IoConditions
import Sobby.SourceTable
import Sobby.SocketSelector
import Sobby.SelectorDelivery
import Sobby.SelectorTimers
import Sobby.SelectorErrors
import Sobby.CommandOutput
import Sobby.CommandMessages
import Sobby.KeyedLists
import Sobby.ConfigTree
import Sobby.ConfigComments
import Sobby.ConfigEntries
import Sobby.ServerSettings
import Sobby.SettingsPrecedence
import Sobby.SettingsRoundTrip
import Sobby.FileTrees
import Sobby.PathCreation
import Sobby.FolderConfinement
import Sobby.CommandConfinement
import Sobby.EntryLifetimes
import Sobby.SelectorClock
import Sobby.AutosavePeriod
import Sobby.CommandDescriptors
import Sobby.ConsoleInput
import Sobby.PathMaps
import Sobby.ConfigPaths
import Sobby.CallChains
import Sobby.PathTermination
import Sobby.LineSplitting
import Sobby.Ownership
import Sobby.EntryLeaks
import Sobby.ConfigOrder
import Sobby.ServerRestart
import Sobby.FolderQueue
import Sobby.SaveHooks
import Sobby.SelectorLifetimes
import Sobby.ConfigFiles
import Sobby.ConsoleSession
import Sobby.DiskFootprint
import Sobby.WholeServer
import Sobby.TimedRuns
import Sobby.AutosaveDelay
