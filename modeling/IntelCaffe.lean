import IntelCaffe.Internode.Topology
import IntelCaffe.Internode.Ledger
import IntelCaffe.Internode.TreeClient
import IntelCaffe.Internode.ReceiveSlot
import IntelCaffe.Internode.Dispatch
import IntelCaffe.Internode.TreeCluster
import IntelCaffe.Util.MathFunctions
import IntelCaffe.Layers.LRN.Layer
import IntelCaffe.Layers.LRN.Bounds
import IntelCaffe.Layers.LRN.Columns
import IntelCaffe.Layers.LRN.Forward
import IntelCaffe.Layers.LRN.Backward
import IntelCaffe.Layers.LRN.Gradient
import IntelCaffe.Layers.MKLReLU
import IntelCaffe.Layers.MKLReLU.UserLayout
