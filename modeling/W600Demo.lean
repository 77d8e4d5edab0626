import W600Demo.Common.Bytes
import W600Demo.Common.CText
import W600Demo.Common.Memory
import W600Demo.Common.Path
import W600Demo.Common.Regions
import W600Demo.Common.DirTree
import W600Demo.Common.TopicFilter
import W600Demo.Common.Run
import W600Demo.Common.Worklist
import W600Demo.Common.Windows
import W600Demo.Rc.Lookup
import W600Demo.Rc.Fsgen
import W600Demo.Rc.Layout
import W600Demo.Rc.RoundTrip
import W600Demo.Rc.Passes
import W600Demo.Rc.Text
import W600Demo.Rc.NameComment
import W600Demo.Rc.Regions
import W600Demo.Rc.Bounds
import W600Demo.Rc.ShortReads
import W600Demo.Rc.Listdir
import W600Demo.Rc.Build
import W600Demo.Httpd.Fs
import W600Demo.Httpd.PathBuffer
import W600Demo.Httpd.Serve
import W600Demo.Httpd.Tree
import W600Demo.Httpd.Confined
import W600Demo.Httpd.Handle
import W600Demo.Httpd.Reads
import W600Demo.Flash.Device
import W600Demo.Flash.Area
import W600Demo.Flash.Partitions
import W600Demo.Wlan.Config
import W600Demo.Wlan.History
import W600Demo.Wlan.PartialSave
import W600Demo.Wlan.Limits
import W600Demo.Mqtt.Client
import W600Demo.Mqtt.Start
import W600Demo.Mqtt.Handover
import W600Demo.Mqtt.Hello
import W600Demo.Mqtt.Broker
import W600Demo.Mqtt.Deliveries
import W600Demo.Mqtt.Swap
import W600Demo.Mqtt.HelloInit
import W600Demo.Mqtt.Bringup
import W600Demo.Mqtt.Presence
import W600Demo.Boot.Main
import W600Demo.Boot.Credentials
import W600Demo.Boot.Lifecycle
import W600Demo.Boot.Banner
