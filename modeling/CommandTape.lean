import CommandTape.Canvas.Codec
import CommandTape.Channel
import CommandTape.Samples.Listing
import CommandTape.Tape.Playback
import CommandTape.Tape.Recording
import CommandTape.Text.Decimal
import CommandTape.Proofs.Contents
import CommandTape.Proofs.Recording
import CommandTape.Proofs.Clearing
import CommandTape.Proofs.Playing
import CommandTape.Proofs.PlaybackLedger
import CommandTape.Proofs.Steps
import CommandTape.Proofs.RoundTrip
import CommandTape.Proofs.Canonical
import CommandTape.Proofs.Unchanged
import CommandTape.Proofs.ItemLedger
import CommandTape.Proofs.Grammar
import CommandTape.Proofs.Walking
import CommandTape.Proofs.Reading
import CommandTape.Proofs.Spots
import CommandTape.Proofs.Locking
import CommandTape.Proofs.Continuing
import CommandTape.Proofs.Growing
import CommandTape.Proofs.Copies
import CommandTape.Proofs.Mappings
import CommandTape.Proofs.Messages
import CommandTape.Proofs.HandingOff
import CommandTape.Proofs.Measures
import CommandTape.Proofs.Publishing
import CommandTape.Proofs.Streaming
import CommandTape.Proofs.Drawing
import CommandTape.Proofs.Sharing
import CommandTape.Proofs.Redrawing
import CommandTape.Proofs.MakingRoom
import CommandTape.Proofs.Packing
import CommandTape.Proofs.Checksum
import CommandTape.Proofs.Damage
import CommandTape.Proofs.Tampering
import CommandTape.Proofs.Fronts
import CommandTape.Proofs.Cuts
import CommandTape.Proofs.Framing
import CommandTape.Proofs.Episodes
import CommandTape.Proofs.Applying
import CommandTape.Proofs.TextBlobs
import CommandTape.Proofs.Tiling
import CommandTape.Proofs.Scratch
import CommandTape.Proofs.Showing
import CommandTape.Proofs.Refusing
import CommandTape.Proofs.Stopping
import CommandTape.Proofs.Remembering
import CommandTape.Proofs.Numbering
import CommandTape.Proofs.Filing
import CommandTape.Proofs.Locations
import CommandTape.Proofs.Rounding
