import MediaHost.Main
import MediaHost.Queue.Schedule
import MediaHost.StopSignal
import MediaHost.Proofs.Account
import MediaHost.Proofs.Audience
import MediaHost.Proofs.Balance
import MediaHost.Proofs.Batch
import MediaHost.Proofs.Bitrate
import MediaHost.Proofs.Calls
import MediaHost.Proofs.Canvas
import MediaHost.Proofs.Copies
import MediaHost.Proofs.Decimals
import MediaHost.Proofs.Encoder
import MediaHost.Proofs.FirstFrame
import MediaHost.Proofs.Handover
import MediaHost.Proofs.Integers
import MediaHost.Proofs.Looping
import MediaHost.Proofs.Margins
import MediaHost.Proofs.Neighbours
import MediaHost.Proofs.Parts
import MediaHost.Proofs.Passes
import MediaHost.Proofs.Phases
import MediaHost.Proofs.Pictures
import MediaHost.Proofs.References
import MediaHost.Proofs.Refusal
import MediaHost.Proofs.Renewal
import MediaHost.Proofs.Returning
import MediaHost.Proofs.Rows
import MediaHost.Proofs.Screen
import MediaHost.Proofs.Settings
import MediaHost.Proofs.Slot
