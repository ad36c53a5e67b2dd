import Googolplex.Crud.Confinement
import Googolplex.Crud.Entities
import Googolplex.Crud.Failure
import Googolplex.Crud.Idempotence
import Googolplex.Crud.Interleaving
import Googolplex.Crud.Reads
import Googolplex.Crud.Restart
import Googolplex.Crud.Store
import Googolplex.Config.BlockStack
import Googolplex.Config.Coverage
import Googolplex.Config.Escapes
import Googolplex.Config.LastDeclaration
import Googolplex.Config.LineEnds
import Googolplex.Config.RoundTrip
import Googolplex.Dispatcher.Acknowledged
import Googolplex.Dispatcher.Apart
import Googolplex.Dispatcher.Locations
import Googolplex.Dispatcher.Replies
import Googolplex.Dispatcher.Slashes
import Googolplex.Dispatcher.Untouched
import Googolplex.ListenPort
import Googolplex.Session.Answered
import Googolplex.Session.Lifecycle
import Googolplex.Session.Reception
import Googolplex.Session.Routing
import Googolplex.StaticFiles
import Googolplex.TextGen.Apart
import Googolplex.TextGen.FormBody
import Googolplex.TextGen.Isolation
import Googolplex.TextGen.Store
