import Realm.Gpu.Processor
import Realm.Gpu.Worker
import Realm.Gpu.TaskLifecycle
import Realm.Gpu.KernelArgs
import Realm.Gpu.Modules
import Realm.Transfer.PairMap
import Realm.Transfer.PlanCopy
import Realm.Transfer.FortranOrder
import Realm.Transfer.Layout
import Realm.Transfer.PlanFill
import Realm.Transfer.Iterator
import Realm.Transfer.RectIter
import Realm.Transfer.RectRun
import Realm.Transfer.HDF5Iter
import Realm.Transfer.ZIndexIter
import Realm.Transfer.IndexSpaceIter
import Realm.Transfer.Observation
import Realm.Transfer.IndexSpaceRun
import Realm.Transfer.Serialize
import Realm.DepPart.Ops
import Realm.DepPart.Circuit
import Realm.DepPart.Split
import Realm.DepPart.MiniAero
import Realm.DepPart.MiniAeroGrid
import Realm.DepPart.MiniAeroInit
import Realm.DepPart.MiniAeroPartition
import Realm.DepPart.MiniAeroCheck
