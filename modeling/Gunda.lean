import Gunda.Core.LostUpdate
import Gunda.Core.Publication
import Gunda.Stream.Ts.Grouping
import Gunda.Stream.Redirects
import Gunda.Stream.Resumability
import Gunda.Http.Publishing
import Gunda.Stream.Separation
import Gunda.Storage.ResumeStores
import Gunda.Stream.Ts.Reduction
import Gunda.Stream.Addressing
import Gunda.Extension.Ownership
import Gunda.Stream.Mux.Descriptions
import Gunda.Gundad.Choices
import Gunda.Extension.Replies
import Gunda.Extension.Sockets
import Gunda.Extension.Reports
import Gunda.Gundad.Attempts
import Gunda.Stream.Expansion
import Gunda.Ipc.Framing
import Gunda.Gundad.Inspections
import Gunda.Capture.Qualities
import Gunda.Capture.Sources
import Gunda.Stream.MediaPlan
import Gunda.Stream.Intervals
import Gunda.Stream.Attributes
import Gunda.Stream.Inheritance
import Gunda.Stream.Templates
import Gunda.Stream.CharacterData
import Gunda.Stream.XmlDocuments
import Gunda.Gundad.Remembered
import Gunda.Extension.Protocol
import Gunda.Stream.Mux.Trees
import Gunda.Stream.Tracks
import Gunda.Stream.Ts.ParameterSets
import Gunda.Stream.Ts.Wrapping
import Gunda.Stream.Mux.Continuity
import Gunda.Stream.Ts.AudioConfig
import Gunda.Stream.Ts.AudioFraming
import Gunda.Storage.Durability
import Gunda.Core.Progression
import Gunda.Gundad.Filenames
import Gunda.Http.Bodies
import Gunda.Stream.Matroska
import Gunda.Stream.Sampling
import Gunda.Capture.Pairing
import Gunda.Http.Restarts
