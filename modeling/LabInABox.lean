import LabInABox.Attempt
import LabInABox.Backend.Mac
import LabInABox.Backend.Reuse
import LabInABox.Backend.SecurityGroup
import LabInABox.Backend.Select
import LabInABox.Backend.Sizing
import LabInABox.Cluster.Addons
import LabInABox.Cluster.Install
import LabInABox.Cluster.Lab
import LabInABox.Cluster.Plan
import LabInABox.Cluster.Provides
import LabInABox.Cluster.Runs
import LabInABox.Cluster.Suppliers
import LabInABox.Config.LabFile
import LabInABox.Config.Shell
import LabInABox.Config.ShellVars
import LabInABox.Config.Sourced
import LabInABox.Config.YamlScalar
import LabInABox.Credentials.Cipher
import LabInABox.Credentials.Discovery
import LabInABox.Credentials.Helper
import LabInABox.Credentials.Ledger
import LabInABox.Credentials.Parsed
import LabInABox.Credentials.Raises
import LabInABox.Credentials.RoundTrip
import LabInABox.Credentials.Secrecy
import LabInABox.Credentials.Store
import LabInABox.Credentials.Stored
import LabInABox.Database.Accounts
import LabInABox.Database.MariadbSettings
import LabInABox.Dns.AddNode
import LabInABox.Dns.AddService
import LabInABox.Dns.Address
import LabInABox.Dns.Concurrent
import LabInABox.Dns.DelNode
import LabInABox.Dns.Header
import LabInABox.Dns.HostsFile
import LabInABox.Dns.NamedConf
import LabInABox.Dns.Names
import LabInABox.Dns.OtherA
import LabInABox.Dns.Pattern
import LabInABox.Dns.Prune
import LabInABox.Dns.Rows
import LabInABox.Dns.Service
import LabInABox.Dns.Sync
import LabInABox.Dns.Undo
import LabInABox.Dns.Zone
import LabInABox.Edit
import LabInABox.FileTree
import LabInABox.Host.AllOrNothing
import LabInABox.Host.Bridge
import LabInABox.Host.Ifupdown
import LabInABox.Host.PortForward
import LabInABox.Idents
import LabInABox.Image.Fetch
import LabInABox.Image.Seed
import LabInABox.Ipalloc.Allocate
import LabInABox.Ipalloc.Labs
import LabInABox.Ipalloc.Phase
import LabInABox.Ipalloc.Preview
import LabInABox.Ipalloc.Stable
import LabInABox.Ipv4
import LabInABox.Jobs.Create
import LabInABox.Jobs.Names
import LabInABox.Jobs.Status
import LabInABox.JsPath
import LabInABox.JsValue
import LabInABox.Keyed
import LabInABox.Memo
import LabInABox.Objects
import LabInABox.OptionFiles
import LabInABox.Overlay.Allocation
import LabInABox.Overlay.Parallel
import LabInABox.Overlay.Peers
import LabInABox.Overlay.Registry
import LabInABox.Overlay.Routes
import LabInABox.Reporting
import LabInABox.Retry.Exclusive
import LabInABox.Retry.Handoff
import LabInABox.Retry.Worker
import LabInABox.Run
import LabInABox.Schema.Annotations
import LabInABox.Schema.Check
import LabInABox.Schema.Comment
import LabInABox.Schema.Compatible
import LabInABox.Schema.Complete
import LabInABox.Schema.Declared
import LabInABox.Schema.Definition
import LabInABox.Schema.Independent
import LabInABox.Schema.Migrate
import LabInABox.Schema.Order
import LabInABox.Schema.Rancher
import LabInABox.Schema.Recovered
import LabInABox.Schema.Snapshot
import LabInABox.Schema.Steps
import LabInABox.Schema.Validate
import LabInABox.Schema.Version
import LabInABox.Schema.Versions
import LabInABox.Server.StaleRules
import LabInABox.Setup.Describe
import LabInABox.Setup.Entry
import LabInABox.Setup.Isolation
import LabInABox.Setup.Keep
import LabInABox.Setup.Mcp
import LabInABox.Setup.Phases
import LabInABox.Setup.Touched
import LabInABox.SharedFiles
import LabInABox.Simulation
import LabInABox.Spacecmd.ApiCall
import LabInABox.Spacecmd.ConfigFiles
import LabInABox.Spacecmd.ContentProjects
import LabInABox.Spacecmd.Kickstart
import LabInABox.Spacecmd.Objects
import LabInABox.Spacecmd.SaltState
import LabInABox.Text.Base64
import LabInABox.Text.Decimal
import LabInABox.Text.Ere
import LabInABox.Text.EreParse
import LabInABox.Text.Fields
import LabInABox.Text.JsonFile
import LabInABox.Text.JsonLayout
import LabInABox.Text.Lines
import LabInABox.Text.Matcher
import LabInABox.Text.Order
import LabInABox.Text.PyJson
import LabInABox.Text.Quoted
import LabInABox.Text.Regex
import LabInABox.Text.Sed
import LabInABox.Text.Shlex
import LabInABox.Text.Table
import LabInABox.Text.Unb64
import LabInABox.Text.Words
import LabInABox.Text.Yaml
import LabInABox.Usb.Remap
import LabInABox.Web.Canvas
import LabInABox.Web.Compile
import LabInABox.Web.Diagram
import LabInABox.Web.Editor
import LabInABox.Web.FieldValue
import LabInABox.Web.Lint
import LabInABox.Web.Opened
import LabInABox.Web.Placements
import LabInABox.Web.RoundTrip
import LabInABox.Web.Saved
import LabInABox.Web.SavedNames
import LabInABox.Web.SavedRuns
import LabInABox.Web.Secrets
import LabInABox.Web.Sections
import LabInABox.Web.VersionAgree
import LabInABox.Web.VersionMatrix
import LabInABox.Web.Widgets
