import AndroidProjects.Foundation.Machine
import AndroidProjects.Foundation.Framing
import AndroidProjects.Binder.Parcel
import AndroidProjects.Binder.Parse
import AndroidProjects.Binder.Stream
import AndroidProjects.Binder.Decoding
import AndroidProjects.Binder.Truncation
import AndroidProjects.Foundation.Pinned
import AndroidProjects.Servicemanager.Registry
import AndroidProjects.Foundation.Binding
import AndroidProjects.Servicemanager.Directory
import AndroidProjects.Binder.Reader
import AndroidProjects.Servicemanager.Handler
import AndroidProjects.Servicemanager.Isolation
import AndroidProjects.Servicemanager.Requests
import AndroidProjects.Binder.Driver
import AndroidProjects.Servicemanager.References
import AndroidProjects.Servicemanager.DeathLinks
import AndroidProjects.Binder.Loop
import AndroidProjects.Servicemanager.Survival
import AndroidProjects.Binder.Writer
import AndroidProjects.Binder.Transfer
import AndroidProjects.Binder.Call
import AndroidProjects.Binder.RoundTrip
import AndroidProjects.Binder.Threads
import AndroidProjects.Binder.Transport
import AndroidProjects.Servicemanager.Clients
import AndroidProjects.Servicemanager.Agreement
import AndroidProjects.Binder.Puts
import AndroidProjects.Binder.Tables
import AndroidProjects.Binder.Cursor
import AndroidProjects.Binder.Footprint
import AndroidProjects.Binder.Residue
import AndroidProjects.Binder.Replies
import AndroidProjects.Binder.Kept
import AndroidProjects.Binder.Received
import AndroidProjects.Binder.Carried
import AndroidProjects.Binder.Absent
import AndroidProjects.Binder.Outcomes
import AndroidProjects.Binder.Answering
import AndroidProjects.Binder.ReplyBuffers
import AndroidProjects.Binder.Pairing
import AndroidProjects.Servicemanager.Listing
import AndroidProjects.Servicemanager.Enumeration
import AndroidProjects.Foundation.Unicode
import AndroidProjects.Testserver.Services
import AndroidProjects.Testserver.Messages
import AndroidProjects.Testserver.Library
import AndroidProjects.Testserver.Pairings
import AndroidProjects.Testserver.NameBuffer
import AndroidProjects.Testserver.Counter
import AndroidProjects.Foundation.Mutex
import AndroidProjects.Leds.Lights
import AndroidProjects.Inotify.Events
import AndroidProjects.Leds.Loading
import AndroidProjects.Binder.Recording
import AndroidProjects.Binder.Fetches
import AndroidProjects.Binder.Opening
import AndroidProjects.Foundation.Buffers
import AndroidProjects.Foundation.Ledger
import AndroidProjects.Foundation.Progress
import AndroidProjects.Socketpair.Dialogue
import AndroidProjects.Message.Looper
import AndroidProjects.Epoll.Reader
import AndroidProjects.Testserver.Client
import AndroidProjects.Testserver.Aidl
import AndroidProjects.Testserver.Calls
import AndroidProjects.Testserver.Mixed
import AndroidProjects.Leds.Failures
import AndroidProjects.Leds.Sony
import AndroidProjects.Leds.Brightness
import AndroidProjects.Leds.Writes
import AndroidProjects.Leds.Control
import AndroidProjects.Foundation.Delays
import AndroidProjects.Lightdemo.Flashing
import AndroidProjects.Leds.Devices
