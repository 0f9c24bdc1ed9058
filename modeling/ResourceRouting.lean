import ResourceRouting.Serial.Codec
import ResourceRouting.Serial.Complaint
import ResourceRouting.Session.Basic
import ResourceRouting.Proofs.Router.Exchange
import ResourceRouting.Proofs.Router.Subscriptions
import ResourceRouting.Proofs.Catalog.ExactMembers
import ResourceRouting.Proofs.Selection.FirstError
import ResourceRouting.Proofs.Session.Atomicity
import ResourceRouting.Proofs.Catalog.Membership
import ResourceRouting.Proofs.Catalog.NormalForm
import ResourceRouting.Proofs.Catalog.Canonical
import ResourceRouting.Proofs.Catalog.Deletion
import ResourceRouting.Proofs.Group.Nodes
import ResourceRouting.Proofs.Group.Segments
import ResourceRouting.Proofs.Catalog.PathTree
import ResourceRouting.Proofs.Selection.Probing
import ResourceRouting.Proofs.Selection.Listing
import ResourceRouting.Proofs.Catalog.Commutation
import ResourceRouting.Proofs.Token.Literals
import ResourceRouting.Proofs.Token.Tiling
import ResourceRouting.Proofs.Catalog.Combination
import ResourceRouting.Proofs.Serial.RoundTrip
import ResourceRouting.Proofs.Group.Order
