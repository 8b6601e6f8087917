import VideoTransport.Inbound.Assembler
import VideoTransport.Inbound.Reorder
import VideoTransport.Json.Record
import VideoTransport.Outbound.Packetizer
/-!
# Settings — what streams and sessions are set up with

Every setting has a default, so a JSON text may name only those that differ.  Reading checks types and ranges; whether
the values make sense together is checked by `validate`.
-/
namespace VideoTransport

/-- Ticks of the media clock in a second. -/
def videoClockRate : UInt32 := 90000

/-! ## Sender -/

structure SenderSettings where
  /-- The source number; chosen at random when absent. -/
  ssrc : Option UInt32 := none
  payloadType : UInt8 := Packetizer.defaultPayloadType
  /-- The longest datagram. -/
  mtu : Nat := Packetizer.defaultMtu
  clockRate : UInt32 := videoClockRate
  deriving DecidableEq, Repr

namespace SenderSettings

/-- The first thing wrong with the settings, if any. -/
def fault? (s : SenderSettings) : Option SettingFault :=
  if s.mtu ≤ Rtp.headerLength + Fragment.headerLength then some (.mtuWithoutRoom s.mtu)
  else if s.clockRate = 0 then some .zeroClockRate
  else if Rtcp.collides s.payloadType then some (.payloadTypeCollides s.payloadType)
  else none

def validate (s : SenderSettings) : Except Fault Unit :=
  match s.fault? with
  | none => .ok ()
  | some fault => .error (.setting fault)

def schema : Json.Schema SenderSettings where
  title := "struct SenderConfig"
  initial := {}
  fields :=
    [{ name := "ssrc", store := fun t s => do
        return { s with ssrc := (← t.optional (·.natural 32 "u32")).map UInt32.ofNat } },
     { name := "payload_type", store := fun t s => do
        return { s with payloadType := UInt8.ofNat (← t.natural 8 "u8") } },
     { name := "mtu", store := fun t s => do return { s with mtu := ← t.natural 64 "usize" } },
     { name := "clock_rate", store := fun t s => do
        return { s with clockRate := UInt32.ofNat (← t.natural 32 "u32") } }]

/-- The settings as diagnostics show them. -/
def describe (s : SenderSettings) : String :=
  "SenderConfig \x7b ssrc: " ++
    (match s.ssrc with
      | none => "None"
      | some n => "Some(" ++ toString n.toNat ++ ")") ++
    ", payload_type: " ++ toString s.payloadType.toNat ++ ", mtu: " ++ toString s.mtu ++ ", clock_rate: " ++
    toString s.clockRate.toNat ++ " \x7d"

end SenderSettings

/-! ## Receiver -/

structure ReceiverSettings where
  reorderCapacity : Nat := Reorder.defaultCapacity
  maxAssemblies : Nat := Assembler.defaultLimit
  clockRate : UInt32 := videoClockRate
  /-- How many access units the application may hold at once. -/
  poolCapacity : Nat := Pool.defaultLimit
  /-- A turn of the number circle is assumed when the highest number lies above this one … -/
  wrapHigh : UInt16 := 60000
  /-- … and a number below this one follows. -/
  wrapLow : UInt16 := 5000
  deriving DecidableEq, Repr

namespace ReceiverSettings

/-- The first thing wrong with the settings, if any. -/
def fault? (s : ReceiverSettings) : Option SettingFault :=
  if s.reorderCapacity = 0 ∨ s.maxAssemblies = 0 ∨ s.poolCapacity = 0 then some .zeroCapacity
  else if s.wrapHigh ≤ s.wrapLow then some (.wrapOrder s.wrapLow s.wrapHigh)
  else if s.clockRate = 0 then some .zeroClockRate
  else none

def validate (s : ReceiverSettings) : Except Fault Unit :=
  match s.fault? with
  | none => .ok ()
  | some fault => .error (.setting fault)

def schema : Json.Schema ReceiverSettings where
  title := "struct ReceiverConfig"
  initial := {}
  fields :=
    [{ name := "reorder_capacity", store := fun t s => do
        return { s with reorderCapacity := ← t.natural 64 "usize" } },
     { name := "max_assemblies", store := fun t s => do
        return { s with maxAssemblies := ← t.natural 64 "usize" } },
     { name := "clock_rate", store := fun t s => do
        return { s with clockRate := UInt32.ofNat (← t.natural 32 "u32") } },
     { name := "pool_capacity", store := fun t s => do
        return { s with poolCapacity := ← t.natural 64 "usize" } },
     { name := "wrap_high", store := fun t s => do
        return { s with wrapHigh := UInt16.ofNat (← t.natural 16 "u16") } },
     { name := "wrap_low", store := fun t s => do
        return { s with wrapLow := UInt16.ofNat (← t.natural 16 "u16") } }]

/-- The settings as diagnostics show them. -/
def describe (s : ReceiverSettings) : String :=
  "ReceiverConfig \x7b reorder_capacity: " ++ toString s.reorderCapacity ++ ", max_assemblies: " ++
    toString s.maxAssemblies ++ ", clock_rate: " ++ toString s.clockRate.toNat ++ ", pool_capacity: " ++
    toString s.poolCapacity ++ ", wrap_high: " ++ toString s.wrapHigh.toNat ++ ", wrap_low: " ++
    toString s.wrapLow.toNat ++ " \x7d"

end ReceiverSettings

/-! ## Session -/

structure SessionSettings where
  width : UInt32 := 1280
  height : UInt32 := 720
  /-- Bits in a second. -/
  bitrate : UInt32 := 2000000
  /-- Frames in a second. -/
  fps : UInt32 := 30
  codec : String := "H264"
  profileLevelId : String := "42e01f"
  /-- Both parameter sets in base64, if they are known beforehand. -/
  parameterSets : Option String := none
  lowLatency : Bool := true
  mtu : Nat := Packetizer.defaultMtu
  deriving DecidableEq, Repr

namespace SessionSettings

/-- Ticks of the media clock from frame to frame; no frames in a second count as one. -/
def timestampIncrement (s : SessionSettings) : UInt32 := videoClockRate / max s.fps 1

def schema : Json.Schema SessionSettings where
  title := "struct VideoSessionConfig"
  initial := {}
  fields :=
    [{ name := "width", store := fun t s => do
        return { s with width := UInt32.ofNat (← t.natural 32 "u32") } },
     { name := "height", store := fun t s => do
        return { s with height := UInt32.ofNat (← t.natural 32 "u32") } },
     { name := "bitrate", store := fun t s => do
        return { s with bitrate := UInt32.ofNat (← t.natural 32 "u32") } },
     { name := "fps", store := fun t s => do
        return { s with fps := UInt32.ofNat (← t.natural 32 "u32") } },
     { name := "codec", store := fun t s => do return { s with codec := ← t.text } },
     { name := "profile_level_id", store := fun t s => do return { s with profileLevelId := ← t.text } },
     { name := "sprop_parameter_sets", store := fun t s => do
        return { s with parameterSets := ← t.optional (·.text) } },
     { name := "low_latency", store := fun t s => do return { s with lowLatency := ← t.boolean } },
     { name := "mtu", store := fun t s => do return { s with mtu := ← t.natural 64 "usize" } }]

end SessionSettings
end VideoTransport
