import Pacsni.Dashboard.Steps

/-! # The way of a packet through the server

A packet is received, labelled, given a country, stored, and may be updated by `geoWorker` as long as it
is in the history. `Staged A Q R P` says that every packet with the server meets the predicate of its
stage; it holds in every run if each of these steps leads from one predicate to the next (`Passes`). -/

namespace Pacsni.Dashboard.Flow

open Pacsni.Lib.Text Pacsni.Lib.Runs
open Pacsni.Dashboard.Packet Pacsni.Dashboard.Ring Pacsni.Dashboard.Lru
open Pacsni.Dashboard.Server Pacsni.Dashboard.Steps

variable {ι : Type*} {env : Env} {A Q R P : DashboardPacket → Prop} {s s' : State ι}

/-- A received packet meets `A`, a labelled one `Q`, one with a country `R`, one in the history `P`. -/
structure Staged (A Q R P : DashboardPacket → Prop) (s : State ι) : Prop where
  received : ∀ pkt, s.packetLoop = .received pkt → A pkt
  lookup : ∀ pkt ip, s.packetLoop = .lookup pkt ip → Q pkt
  request : ∀ pkt ip, s.packetLoop = .request pkt ip → Q pkt
  decide : ∀ pkt, s.packetLoop = .decide pkt → R pkt
  stored : ∀ pkt, s.packetLoop = .stored pkt → R pkt
  history : ∀ pkt ∈ s.historyBuffer.getAll false, P pkt

/-- What the server does to a packet leads from one predicate to the next. -/
structure Passes (env : Env) (A Q R P : DashboardPacket → Prop) : Prop where
  label : ∀ n pkt, A pkt → Q (label env.lib n pkt)
  noGeo : ∀ pkt, Q pkt → R { pkt with country := "local".toList }
  setCountry : ∀ pkt res, Q pkt → R (setCountry pkt res)
  store : ∀ pkt, R pkt → P pkt
  update : ∀ ip g pkt, P pkt → P (applyGeo ip g pkt)

/-- The packet goroutine goes on to the decision. -/
theorem Staged.toDecide (hs : Staged A Q R P s) {pkt : DashboardPacket}
    (hhist : s'.historyBuffer = s.historyBuffer) (hp : s'.packetLoop = .decide pkt) (hr : R pkt) :
    Staged A Q R P s' where
  received := by rw [hp]; rintro _ ⟨⟩
  lookup := by rw [hp]; rintro _ _ ⟨⟩
  request := by rw [hp]; rintro _ _ ⟨⟩
  decide := by rw [hp]; rintro _ ⟨⟩; exact hr
  stored := by rw [hp]; rintro _ ⟨⟩
  history := by rw [hhist]; exact hs.history

/-- The packet goroutine has done with its packet. -/
theorem Staged.toIdle (hs : Staged A Q R P s) (hhist : s'.historyBuffer = s.historyBuffer)
    (hp : s'.packetLoop = .idle) : Staged A Q R P s' where
  received := by rw [hp]; rintro _ ⟨⟩
  lookup := by rw [hp]; rintro _ _ ⟨⟩
  request := by rw [hp]; rintro _ _ ⟨⟩
  decide := by rw [hp]; rintro _ ⟨⟩
  stored := by rw [hp]; rintro _ ⟨⟩
  history := by rw [hhist]; exact hs.history

variable [DecidableEq ι]

/-- A step of the server. -/
theorem staged_step {a : Server.Action ι} (hpass : Passes env A Q R P)
    (harrive : ∀ d, a = .arrive d → A (Packet.received d)) (hs : Staged A Q R P s) (h : Step env s a s') :
    Staged A Q R P s' := by
  cases h with
  | arrive hp => exact { hs with
      received := by rintro _ ⟨⟩; exact harrive _ rfl
      lookup := by rintro _ _ ⟨⟩
      request := by rintro _ _ ⟨⟩
      decide := by rintro _ ⟨⟩
      stored := by rintro _ ⟨⟩ }
  | skip hp hmu hscan => exact hs.toIdle rfl rfl
  | start hp hmu hscan hip => exact { hs with
      received := by rintro _ ⟨⟩
      lookup := by rintro _ _ ⟨⟩; exact hpass.label _ _ (hs.received _ hp)
      request := by rintro _ _ ⟨⟩
      decide := by rintro _ ⟨⟩
      stored := by rintro _ ⟨⟩ }
  | startLocal hp hmu hscan hip =>
    exact hs.toDecide rfl rfl (hpass.noGeo _ (hpass.label _ _ (hs.received _ hp)))
  | lookupPrivate hp hip => exact hs.toDecide rfl rfl (hpass.setCountry _ _ (hs.lookup _ _ hp))
  | hit hp hip hget => exact hs.toDecide rfl rfl (hpass.setCountry _ _ (hs.lookup _ _ hp))
  | miss hp hip hget => exact { hs with
      received := by rintro _ ⟨⟩
      lookup := by rintro _ _ ⟨⟩
      request := by rintro _ _ ⟨⟩; exact hs.lookup _ _ hp
      decide := by rintro _ ⟨⟩
      stored := by rintro _ ⟨⟩ }
  | ask hp hroom => exact hs.toDecide rfl rfl (hpass.setCountry _ _ (hs.request _ _ hp))
  | drop hp hfull => exact hs.toDecide rfl rfl (hpass.setCountry _ _ (hs.request _ _ hp))
  | keep hp hacc => exact {
      received := by rintro _ ⟨⟩
      lookup := by rintro _ _ ⟨⟩
      request := by rintro _ _ ⟨⟩
      decide := by rintro _ ⟨⟩
      stored := by rintro _ ⟨⟩; exact hs.decide _ hp
      history := by
        intro pkt hpkt
        rcases RingBuffer.mem_getAll_add hpkt with rfl | hold
        · exact hpass.store _ (hs.decide _ hp)
        · exact hs.history pkt hold }
  | reject hp hacc => exact hs.toIdle rfl rfl
  | tell hp => exact hs.toIdle rfl rfl
  | update hg => exact { hs with
      history := by
        intro pkt hpkt
        obtain ⟨pkt, hold, rfl⟩ := RingBuffer.mem_getAll_update hpkt
        exact hpass.update _ _ pkt (hs.history pkt hold) }
  | clear hr hmu => exact { hs with history := by rw [RingBuffer.getAll_clear]; nofun }
  | _ => exact { hs with }

/-- **The way of a packet.** If every packet that arrives meets `A`, every packet with the server meets
the predicate of its stage. -/
theorem staged_of_reachVia {savedOK : LruCache → Prop} {ok : State ι → Server.Action ι → Prop}
    (hpass : Passes env A Q R P) (hok : ∀ s d, ok s (.arrive d) → A (Packet.received d))
    (hs : (machine ι env savedOK).ReachVia ok s) : Staged A Q R P s := by
  refine Machine.ReachVia.invariant (I := Staged A Q R P) hs ?_ fun s a s' ih ha hstep =>
    staged_step hpass ?_ ih (step_of_machine hstep)
  · intro s hinit
    obtain ⟨hcount, -, -, -, -, -, -, hp, -⟩ := hinit
    have hempty : s.historyBuffer.getAll false = [] := by
      rw [← List.length_eq_zero_iff, RingBuffer.length_getAll, hcount]
    exact ⟨by rw [hp]; rintro _ ⟨⟩, by rw [hp]; rintro _ _ ⟨⟩, by rw [hp]; rintro _ _ ⟨⟩,
      by rw [hp]; rintro _ ⟨⟩, by rw [hp]; rintro _ ⟨⟩, by rw [hempty]; nofun⟩
  · rintro d rfl
    exact hok s d ha

end Pacsni.Dashboard.Flow
