import Pacsni.Capture.Layout
import Pacsni.Capture.Window

/-! # What a worker transmits

A worker dissects a raw packet into a local record and pushes the record, whatever
`dissect_raw_packet` did to it. The record is cleared behind the Ethernet layer, so the 1024 bytes
that are sent depend on the raw packet alone if and only if the capture holds an Ethernet header. The raw
packet is all of it: a dissector that looks behind the captured bytes takes what the buffer of the raw
packet has there. -/

namespace Pacsni.Capture.Transmit

open Pacsni.Lib.Trace
open Pacsni.Capture.Types Pacsni.Capture.Layers Pacsni.Capture.Raw Pacsni.Capture.LayerSpec
open Pacsni.Capture.Layout Pacsni.Capture.Window

end Pacsni.Capture.Transmit
