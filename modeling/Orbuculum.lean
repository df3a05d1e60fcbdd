import Orbuculum.Spec.Basic
import Orbuculum.Spec.Oflow
import Orbuculum.Spec.Process
import Orbuculum.Spec.Ring
import Orbuculum.Spec.Threads
import Orbuculum.Spec.Channels
import Orbuculum.Spec.Usb
import Orbuculum.Spec.Options
import Orbuculum.Proof.Oflow
import Orbuculum.Proof.Route
import Orbuculum.Proof.Purge
import Orbuculum.Proof.Ring
import Orbuculum.Proof.Threads
import Orbuculum.Proof.Channels
import Orbuculum.Proof.Delivery
import Orbuculum.Proof.Usb
import Orbuculum.Proof.Options
import Orbuculum.Proof.Startup
import Orbuculum.Proof.Refine
import Orbuculum.Proof.Interval
