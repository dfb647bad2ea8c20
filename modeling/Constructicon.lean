import Constructicon.Document.Results
import Constructicon.Command.Workspace
import Constructicon.Main
import Constructicon.Proofs.Session.Parses
import Constructicon.Proofs.Tree.Reading
import Constructicon.Proofs.Session.Anchored
import Constructicon.Proofs.Session.Modular
import Constructicon.Proofs.Session.Later
import Constructicon.Proofs.Session.Depth
import Constructicon.Proofs.Session.Circle
import Constructicon.Proofs.Session.Views
import Constructicon.Proofs.Session.Index
import Constructicon.Proofs.Tree.Roots
import Constructicon.Proofs.Network.Embedding
import Constructicon.Proofs.Store
import Constructicon.Proofs.Document
import Constructicon.Proofs.Store.Migration
import Constructicon.Proofs.Network.Arranged
import Constructicon.Proofs.Session.Blind
import Constructicon.Proofs.Session.Positions
import Constructicon.Proofs.Tree.Maximal
import Constructicon.Proofs.Automaton.Checked
import Constructicon.Proofs.Network.Refusals
import Constructicon.Proofs.Session.Refusals
import Constructicon.Proofs.Session.Overrun
import Constructicon.Proofs.Session.Support
import Constructicon.Proofs.Session.Progress
import Constructicon.Proofs.Network.Keys
import Constructicon.Proofs.Closure.Steps
import Constructicon.Proofs.Document.Forms
import Constructicon.Proofs.Token.Stream
import Constructicon.Proofs.Session.Sequence
import Constructicon.Proofs.Tree.Causes
