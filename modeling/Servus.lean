import Servus.Md5.Digest
import Servus.Uri.RoundTrip
import Servus.Uri.Sync
import Servus.Uri.Mutators
import Servus.Uri.Port
import Servus.Uri.States
import Servus.Uri.Survives
import Servus.Uint128.Text
import Servus.Uint128.Make
import Servus.Uint128.Uuid
import Servus.Uint128.Stream
import Servus.Test.Listener
import Servus.Avahi.Browse
import Servus.Avahi.Attempts
import Servus.Dnssd.Trace
import Servus.Dnssd.Record
import Servus.Dnssd.Owned
import Servus.Service.LifeCycle
import Servus.Service.TxtRecord
import Servus.Service.History
import Servus.Service.Network
import Servus.Service.Driver
import Servus.Qt.Rows
import Servus.Qt.Navigation
import Servus.Qt.View
import Servus.Qt.Cached
import Servus.Serializable.Ownership
import Servus.Serializable.Values
