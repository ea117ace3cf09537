import VolthaCore.Devices.Adapters
import VolthaCore.Devices.Images
import VolthaCore.Devices.Synced
import VolthaCore.Logical.Meters
import VolthaCore.Logical.Failures
import VolthaCore.Decomposition.WildcardTraps
import VolthaCore.DataModel.KeyedMerge
import VolthaCore.Transactions.Acquire
import VolthaCore.Proxies.Reservations
import VolthaCore.Proxies.Deliveries
import VolthaCore.Nodes.Interleavings
import VolthaCore.Nodes.FiniteMaps
import VolthaCore.Nodes.Noninterference
import VolthaCore.Owners.BookKeeping
import VolthaCore.Owners.SplitBrain
import VolthaCore.Manager.Children
import VolthaCore.Manager.RootDevices
import VolthaCore.Manager.Deletion
import VolthaCore.Ports.NniCache
import VolthaCore.Northbound.Streams
import VolthaCore.Manager.LoadRuns
import VolthaCore.Manager.FailedCreations
import VolthaCore.Devices.ChangeSets
import VolthaCore.DataModel.OwnData
import VolthaCore.Decomposition.RouteLookup
import VolthaCore.Decomposition.RuleLists
import VolthaCore.Decomposition.DerivedFlows
import VolthaCore.Nodes.ChildUpdates
import VolthaCore.Logical.FirstTrap
import VolthaCore.Manager.BatchErrors
import VolthaCore.Manager.Delegation
import VolthaCore.Ports.PortChanges
import VolthaCore.Responses
import VolthaCore.Manager.ChildDevices
import VolthaCore.Adapters.LastCommunication
