import Colloquy.Main
import Colloquy.Proofs.Concatenation
import Colloquy.Proofs.Cursor
import Colloquy.Proofs.Listeners
import Colloquy.Proofs.Manifest
import Colloquy.Proofs.Markup.Binding
import Colloquy.Proofs.Markup.Passage
import Colloquy.Proofs.Markup.Verbatim
import Colloquy.Proofs.Markup.Vocabulary
import Colloquy.Proofs.Number.Order
import Colloquy.Proofs.Playback.Afresh
import Colloquy.Proofs.Playback.Appearance
import Colloquy.Proofs.Playback.Course
import Colloquy.Proofs.Playback.Faultless
import Colloquy.Proofs.Playback.Guidance
import Colloquy.Proofs.Playback.Legibility
import Colloquy.Proofs.Playback.Lifetime
import Colloquy.Proofs.Playback.Onward
import Colloquy.Proofs.Playback.Requests
import Colloquy.Proofs.Playback.Routing
import Colloquy.Proofs.Playback.Standstill
import Colloquy.Proofs.Playback.Tour
import Colloquy.Proofs.Playback.Whereabouts
import Colloquy.Proofs.Schedule
import Colloquy.Proofs.Script.Condition
import Colloquy.Proofs.Script.Directory
import Colloquy.Proofs.Script.Opening
import Colloquy.Proofs.Script.Paths
import Colloquy.Proofs.Script.Preparation
import Colloquy.Proofs.Script.RoundTrip
import Colloquy.Proofs.Script.Verdict
import Colloquy.Proofs.Template
