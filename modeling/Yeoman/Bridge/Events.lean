import Yeoman.Library.JsonDict

/-! The provider events that the bridge keeps until they are acknowledged, and when two of them
count as the same event. -/
namespace Yeoman.Bridge
open Library

def protocolVersion : Int := 6

def maxBridgeFrameBytes : Nat := 262144

inductive ReplayableEventType where
  | message
  | edit
  | delete
  | reaction
  | receipt
  | membershipChange
  | membershipSnapshot
  | groupSubject
  | groupDescription
deriving DecidableEq

namespace ReplayableEventType

def name : ReplayableEventType → String
  | message => "message"
  | edit => "edit"
  | delete => "delete"
  | reaction => "reaction"
  | receipt => "receipt"
  | membershipChange => "membership_change"
  | membershipSnapshot => "membership_snapshot"
  | groupSubject => "group_subject"
  | groupDescription => "group_description"

end ReplayableEventType

/-- What `asReplayableEvent` makes of an envelope: an event that has an id and a key. -/
structure ReplayableBridgeEvent where
  type : ReplayableEventType
  ts : Int
  accountId : String
  payload : Dict
  (eventId eventKey : String)
  observedAt : Int
  identified : eventId ≠ "" ∧ eventKey ≠ ""

def ReplayableBridgeEvent.messageWithId (id text : String) (h : id ≠ "") : ReplayableBridgeEvent where
  type := .message
  ts := 0
  accountId := "default"
  payload := Dict.empty.setStr "text" text
  eventId := id
  eventKey := id
  observedAt := 0
  identified := ⟨h,h⟩

def volatileProviderFields : List String :=
  ["observedAt", "observed_at_ms", "ingestedAt", "ingested_at_ms", "ingestionAt", "ingestion_at_ms", "receivedAt",
    "received_at_ms", "committedAt", "committed_at_ms", "commit_ms", "confirmed_ms"]

mutual

def dropVolatile : Json → Json
  | .arr xs => .arr (dropVolatileItems xs)
  | .obj kvs => .obj (dropVolatileMembers kvs)
  | v => v

def dropVolatileItems : List Json → List Json
  | [] => []
  | x :: xs => dropVolatile x :: dropVolatileItems xs

def dropVolatileMembers : List (String × Json) → List (String × Json)
  | [] => []
  | (k, v) :: kvs =>
    if k ∈ volatileProviderFields then dropVolatileMembers kvs else (k, dropVolatile v) :: dropVolatileMembers kvs

end

def canonicalProviderValue (v : Json) : Json := Json.sortKeys (dropVolatile v)

namespace ReplayableBridgeEvent

def toJson (e : ReplayableBridgeEvent) : Json :=
  .obj [("version", .int protocolVersion), ("type", .str e.type.name), ("ts", .int e.ts), ("accountId", .str e.accountId),
    ("payload", e.payload.toJson), ("eventId", .str e.eventId), ("eventKey", .str e.eventKey),
    ("observedAt", .int e.observedAt)]

def serializedBytes (e : ReplayableBridgeEvent) : Nat := (String.ofList (Json.render e.toJson)).utf8ByteSize

def metadataComparisonPayload (e : ReplayableBridgeEvent) : Json.Members :=
  if (e.type = .groupSubject ∨ e.type = .groupDescription) ∧ (e.payload.get "snapshot").truthy = false ∧
      e.payload.has "occurredMs" then e.payload.members.filter fun kv => kv.1 ≠ "observedAtMs"
  else e.payload.members

def comparison (e : ReplayableBridgeEvent) : Json :=
  .obj [("version", .int protocolVersion), ("type", .str e.type.name), ("accountId", .str e.accountId),
    ("eventId", .str e.eventId), ("eventKey", .str e.eventKey),
    ("payload", canonicalProviderValue (.obj e.metadataComparisonPayload))]

end ReplayableBridgeEvent

def sameReplayableEvent (a b : ReplayableBridgeEvent) : Bool := Json.render a.comparison = Json.render b.comparison

theorem sameReplayableEvent_refl {a : ReplayableBridgeEvent} : sameReplayableEvent a a = true := by
  simp [sameReplayableEvent]

end Yeoman.Bridge
