import Mentat.Accounting
import Mentat.Sentinel
import Mentat.Sessions
import Mentat.Grace
import Mentat.Orphans
import Mentat.RefIds
import Mentat.HeadChange
import Mentat.Resolution
import Mentat.Claims
import Mentat.Stall
import Mentat.Fence
import Mentat.Promised
import Mentat.Claim.Complete
import Mentat.Vendors
import Mentat.Mesh.Agreement
import Mentat.Mesh.Stable
import Mentat.Mesh.Restart
import Mentat.Mesh.TieBreak
import Mentat.Events
import Mentat.HeadWindow
import Mentat.IslandPlacement
import Mentat.Agent.Outbox
import Mentat.Wire.Secret
import Mentat.Wire.Frames
import Mentat.Wire.WebSocket
import Mentat.Router.Follow
import Mentat.Router.OneWatch
import Mentat.Router.Groups
import Mentat.Connections
import Mentat.Agent.Calls
import Mentat.Agent.Relaying
import Mentat.Agent.Results
import Mentat.Tables
import Mentat.Fabrics
import Mentat.ClaimCalls
import Mentat.Claim.Cables
import Mentat.Claim.Binds
import Mentat.Router.Prober
import Mentat.Agent.Announced
import Mentat.Wire.Version
import Mentat.Mesh.Interfaces
import Mentat.NodeIds
import Mentat.Router.Nets
import Mentat.Fitting
import Mentat.Router.Patches
import Mentat.Router.Tools
import Mentat.Router.Forms
import Mentat.GpuLine
import Mentat.Mesh.Announcements
import Mentat.Lifecycles
import Mentat.Mesh.Converges
import Mentat.Mesh.Joins
import Mentat.Wire.Signing
import Mentat.Mesh.Announcer
import Mentat.Router.Proxy
import Mentat.Mesh.Probing
import Mentat.HoldDowns
import Mentat.Mesh.Silence
