import Pacsni.Lib.Offer
import Pacsni.Dashboard.Forward

/-! # The clients of the dashboard

`serveWs` puts a channel into `clients`, and writes what it takes from it to the websocket; `broadcast`
offers a message to every channel and drops it where the channel is full. Both hold `clientsMu`, so a
broadcast is one step. A client whose write fails is taken out, but is still offered messages until then.

Slow clients hold up neither the server nor each other, and what a client gets are messages that were
told since it was registered, in their order; it gets all of them if its channel was never full. -/

namespace Pacsni.Dashboard.Clients

open Pacsni.Lib.Runs Pacsni.Lib.Offer
open Pacsni.Dashboard.Packet Pacsni.Dashboard.Lru Pacsni.Dashboard.Server Pacsni.Dashboard.Steps
open Pacsni.Dashboard.Forward

/-! ### The machine -/

/-- The capacity of the channels. -/
def channelCapacity : ℕ := 1024

/-- A goroutine of `serveWs` with its channel. `joined` is the number of messages that had been told when
it was registered, `lost` the number of those that found the channel full or could not be written;
`leaving` says that a write has failed. -/
structure Client where
  joined : ℕ
  channel : Mailbox Message channelCapacity
  hand : Option Message
  written : List Message
  lost : ℕ
  leaving : Bool

/-- The server and its clients. -/
structure Hub (ι κ : Type*) where
  server : State ι
  clients : κ → Option Client

/-- The server takes a step, or `serveWs` registers a channel, takes a message from it, writes it, or
takes the channel out. -/
inductive Act (ι κ : Type*)
  | server (a : Server.Action ι)
  | register (k : κ)
  | take (k : κ)
  | write (k : κ) (ok : Bool)
  | remove (k : κ)

/-- A message is offered to the channel. -/
def Client.hear (client : Client) (m : Message) : Client :=
  { client with
    channel := client.channel.offer m
    lost := if client.channel.Full then client.lost + 1 else client.lost }

/-- A new client. -/
def Client.new (joined : ℕ) : Client := ⟨joined, .empty _ _, none, [], 0, false⟩

section

variable {ι κ : Type*} [DecidableEq κ]

/-- The client `k` is `client`. -/
def Hub.set (x : Hub ι κ) (k : κ) (client : Option Client) : Hub ι κ :=
  { x with clients := Function.update x.clients k client }

/-- A step of `serveWs`. -/
def stepClient (x : Hub ι κ) (k : κ) (client : Client) : Act ι κ → Option (Hub ι κ)
  | .take _ => match client.hand, client.leaving, client.channel.take with
    | none, false, some (m, channel) =>
      some (x.set k (some { client with hand := some m, channel := channel }))
    | _, _, _ => none
  | .write _ ok => match client.hand with
    | some m => some (x.set k (some { client with
        hand := none
        written := if ok then client.written ++ [m] else client.written
        lost := if ok then client.lost else client.lost + 1
        leaving := !ok }))
    | none => none
  | .remove _ => if client.leaving then some (x.set k none) else none
  | _ => none

/-- The server with any number of clients. -/
def hub (ι κ : Type*) [DecidableEq ι] [DecidableEq κ] (env : Env) (savedOK : LruCache → Prop) :
    Machine (Hub ι κ) (Act ι κ) where
  init x := Init savedOK x.server ∧ ∀ k, x.clients k = none
  step x
    | .server a => ((machine ι env savedOK).step x.server a).map fun s' =>
        ⟨s', fun k => (x.clients k).map fun client =>
          (s'.broadcasts.drop x.server.broadcasts.length).foldl Client.hear client⟩
    | .register k => match x.clients k with
      | none => some (x.set k (some (.new x.server.broadcasts.length)))
      | some _ => none
    | .take k => (x.clients k).bind fun client => stepClient x k client (.take k)
    | .write k ok => (x.clients k).bind fun client => stepClient x k client (.write k ok)
    | .remove k => (x.clients k).bind fun client => stepClient x k client (.remove k)

end

/-! ### What a client has -/

/-- The messages that a client has taken or is going to take. -/
def Client.has (client : Client) : List Message :=
  client.written ++ client.hand.toList ++ client.channel.queue

/-- The client has got of `broadcasts` what came after its registration, but for what is lost. -/
structure Served (broadcasts : List Message) (client : Client) : Prop where
  joined : client.joined ≤ broadcasts.length
  fed : Fed (broadcasts.drop client.joined) client.has client.lost

variable {broadcasts : List Message} {client : Client}

theorem served_new (broadcasts : List Message) : Served broadcasts (.new broadcasts.length) := by
  refine ⟨le_rfl, ?_⟩
  rw [show (Client.new broadcasts.length).joined = broadcasts.length from rfl, List.drop_length]
  exact Fed.nil

theorem Served.hear (h : Served broadcasts client) (m : Message) :
    Served (broadcasts ++ [m]) (client.hear m) := by
  refine ⟨?_, ?_⟩
  · rw [List.length_append]
    exact Nat.le_add_right_of_le h.joined
  · show Fed ((broadcasts ++ [m]).drop client.joined) _ _
    rw [List.drop_append_of_le_length h.joined]
    exact h.fed.offer m

/-- A broadcast of any number of messages. -/
theorem Served.hearAll (ms : List Message) : ∀ {broadcasts : List Message} {client : Client},
    Served broadcasts client → Served (broadcasts ++ ms) (ms.foldl Client.hear client) := by
  induction ms with
  | nil =>
    intro broadcasts client h
    rwa [List.append_nil]
  | cons m ms ih =>
    intro broadcasts client h
    have hrest := ih (h.hear m)
    rwa [List.append_assoc] at hrest

variable {ι κ : Type*} [DecidableEq κ] {x x' : Hub ι κ} {k : κ}

/-- **One step of `serveWs`.** -/
theorem served_step {a : Act ι κ} (h : Served broadcasts client)
    (ha : stepClient x k client a = some x') : x'.server = x.server ∧
      ∃ next, x'.clients = Function.update x.clients k next ∧ ∀ c, next = some c → Served broadcasts c := by
  have hfed := h.fed
  unfold Client.has at hfed
  cases a with
  | server a => cases ha
  | register j => cases ha
  | take j =>
    simp only [stepClient] at ha
    split at ha
    · rename_i m channel hhand hleaving htake
      obtain rfl := Option.some.inj ha
      refine ⟨rfl, _, rfl, ?_⟩
      rintro c ⟨⟩
      refine ⟨h.joined, ?_⟩
      rw [hhand, queue_take htake] at hfed
      simpa [Client.has] using hfed
    · cases ha
  | write j ok =>
    simp only [stepClient] at ha
    split at ha
    · rename_i m hhand
      obtain rfl := Option.some.inj ha
      refine ⟨rfl, _, rfl, ?_⟩
      rintro c ⟨⟩
      refine ⟨h.joined, ?_⟩
      rw [hhand] at hfed
      cases ok with
      | true => simpa [Client.has] using hfed
      | false =>
        rw [Option.toList_some, List.append_assoc] at hfed
        simpa [Client.has] using hfed.lose
    · cases ha
  | remove j =>
    simp only [stepClient] at ha
    split_ifs at ha
    obtain rfl := Option.some.inj ha
    exact ⟨rfl, none, rfl, nofun⟩

/-! ### Runs -/

section

variable [DecidableEq ι] {env : Env} {savedOK : LruCache → Prop}
  {l : List Service.Model.DashboardPacket}

/-- The packets that arrive at the server. -/
def arrivals (x : Hub ι κ) : Act ι κ → List Service.Model.DashboardPacket
  | .server a => Forward.note x.server a
  | _ => []

/-- The server goes its way, and every client is served. -/
structure Inv (env : Env) (savedOK : LruCache → Prop) (x : Hub ι κ)
    (l : List Service.Model.DashboardPacket) : Prop where
  server : ((machine ι env savedOK).recorded Forward.note).Reach (x.server, l)
  clients : ∀ k client, x.clients k = some client → Served x.server.broadcasts client

/-- A step of one client. -/
theorem Inv.setClient (hx : Inv env savedOK x l) {next : Option Client} (hserver : x'.server = x.server)
    (hclients : x'.clients = Function.update x.clients k next)
    (hnext : ∀ c, next = some c → Served x.server.broadcasts c) : Inv env savedOK x' l := by
  refine ⟨by rw [hserver]; exact hx.server, fun j c hj => ?_⟩
  rw [hserver]
  rw [hclients] at hj
  by_cases hk : j = k
  · subst hk
    rw [Function.update_self] at hj
    exact hnext c hj
  · rw [Function.update_of_ne hk] at hj
    exact hx.clients j c hj

/-- No step takes a message back. -/
theorem broadcasts_step {s s' : State ι} {a : Server.Action ι} (h : Step env s a s') :
    ∃ ms, s'.broadcasts = s.broadcasts ++ ms := by
  cases h with
  | tell | tellGeo | tellClear | tellToggle | tellFilter => exact ⟨_, rfl⟩
  | _ => exact ⟨[], (List.append_nil _).symm⟩

theorem inv_step {a : Act ι κ} (hx : Inv env savedOK x l)
    (h : (hub ι κ env savedOK).step x a = some x') : Inv env savedOK x' (l ++ arrivals x a) := by
  cases a with
  | server a =>
    obtain ⟨s', hs', rfl⟩ := Option.map_eq_some_iff.mp h
    refine ⟨hx.server.next trivial (Machine.recorded_step.mpr ⟨hs', rfl⟩), fun k c hc => ?_⟩
    obtain ⟨client, hclient, rfl⟩ := Option.map_eq_some_iff.mp hc
    obtain ⟨ms, hms⟩ := broadcasts_step (step_of_machine hs')
    show Served s'.broadcasts _
    rw [hms, List.drop_left]
    exact (hx.clients k client hclient).hearAll ms
  | register k =>
    rw [show arrivals x (.register k) = [] from rfl, List.append_nil]
    simp only [hub] at h
    split at h
    · obtain rfl := Option.some.inj h
      refine hx.setClient rfl rfl ?_
      rintro c ⟨⟩
      exact served_new _
    · cases h
  | take k | write k ok | remove k =>
    obtain ⟨client, hclient, hstep⟩ := Option.bind_eq_some_iff.mp h
    obtain ⟨hserver, next, hclients, hnext⟩ := served_step (hx.clients k client hclient) hstep
    have hnil : l ++ [] = l := List.append_nil l
    exact hnil.symm ▸ hx.setClient hserver hclients hnext

theorem inv_of_reach {x : Hub ι κ × List Service.Model.DashboardPacket}
    (h : ((hub ι κ env savedOK).recorded arrivals).Reach x) : Inv env savedOK x.1 x.2 := by
  refine Machine.Reach.invariant (I := fun x => Inv env savedOK x.1 x.2) h ?_ ?_
  · rintro ⟨x, l⟩ ⟨⟨hinit, hnone⟩, rfl⟩
    refine ⟨.of_init ⟨hinit, rfl⟩, fun k c hc => ?_⟩
    rw [hnone k] at hc
    cases hc
  · rintro ⟨x, l⟩ a ⟨x', l'⟩ hx ha
    obtain ⟨hstep, rfl⟩ := Machine.recorded_step.mp ha
    exact inv_step hx hstep

omit [DecidableEq κ] in
/-- The history is some of what has arrived. -/
theorem Inv.history (hx : Inv env savedOK x l) :
    (origins (x.server.historyBuffer.getAll false)).Sublist l := by
  have hstored := (Forward.inv_of_recorded hx.server).stored
  rw [origins_append] at hstored
  exact (List.sublist_append_left _ _).trans hstored

omit [DecidableEq κ] in
/-- The packets that a client has got are some of what has arrived. -/
theorem Inv.written (hx : Inv env savedOK x l) {client : Client} (hk : x.clients k = some client) :
    (origins (packetsOf client.written)).Sublist l := by
  have htold := (Forward.inv_of_recorded hx.server).told
  rw [origins_append] at htold
  have hhas : client.written.Sublist client.has := by
    rw [Client.has, List.append_assoc]
    exact List.sublist_append_left _ _
  have hwritten : client.written.Sublist x.server.broadcasts :=
    (hhas.trans (hx.clients k client hk).fed.sublist).trans (List.drop_sublist _ _)
  exact ((hwritten.filterMap _).map _).trans ((List.sublist_append_left _ _).trans htold)

/-- **What a client gets.** With any number of clients that come, go and stall as they like, the server
runs as it does without them. What a client has got is some of the messages since its registration, in
their order, and all of them if nothing was lost; the packets among them are some of the packets that
have arrived, in their order and with all that has arrived with them, and so is the history. -/
theorem client_served (env : Env) (savedOK : LruCache → Prop) (x : Hub ι κ)
    (l : List Service.Model.DashboardPacket)
    (h : ((hub ι κ env savedOK).recorded arrivals).Reach (x, l)) :
    ((machine ι env savedOK).recorded Forward.note).Reach (x.server, l) ∧
      (origins (x.server.historyBuffer.getAll false)).Sublist l ∧
      ∀ k client, x.clients k = some client →
        client.has.Sublist (x.server.broadcasts.drop client.joined) ∧
        client.has.length + client.lost = (x.server.broadcasts.drop client.joined).length ∧
        (client.lost = 0 → client.has = x.server.broadcasts.drop client.joined) ∧
        (origins (packetsOf client.written)).Sublist l := by
  have hx := inv_of_reach h
  refine ⟨hx.server, hx.history, fun k client hk => ?_⟩
  have hfed := (hx.clients k client hk).fed
  exact ⟨hfed.sublist, hfed.length, fun hlost => (hlost ▸ hfed : Fed _ _ 0).eq_of_lost, hx.written hk⟩

end

/-- One client that is there from the start and gets one packet. -/
def serveOne : List (Act Unit Unit) :=
  .register () :: (Geo.storedFirst.take 6).map .server ++ [.take (), .write () true]

/-- The start of the server, without clients. -/
def unserved : Hub Unit Unit := ⟨Geo.started, fun _ => none⟩

theorem client_served_serveOne : ∃ x : Hub Unit Unit, ∃ l : List Service.Model.DashboardPacket,
    l = [Geo.fromPublic] ∧ (x.clients ()).isSome = true ∧
    ((machine Unit Geo.atlas Geo.SavedOK).recorded Forward.note).Reach (x.server, l) ∧
      (origins (x.server.historyBuffer.getAll false)).Sublist l ∧
      ∀ k client, x.clients k = some client →
        client.has.Sublist (x.server.broadcasts.drop client.joined) ∧
        client.has.length + client.lost = (x.server.broadcasts.drop client.joined).length ∧
        (client.lost = 0 → client.has = x.server.broadcasts.drop client.joined) ∧
        (origins (packetsOf client.written)).Sublist l :=
  have hrun : ((hub Unit Unit Geo.atlas Geo.SavedOK).recorded arrivals).Reach
      ((((hub Unit Unit Geo.atlas Geo.SavedOK).recorded arrivals).exec (unserved, []) serveOne).get
        (by decide)) :=
    Machine.Reach.exec (s := (unserved, [])) serveOne
      (Machine.ReachVia.of_init ⟨⟨Geo.init_started, fun _ => rfl⟩, rfl⟩) (by simp)
  ⟨_, _, rfl, rfl, client_served Geo.atlas Geo.SavedOK _ _ hrun⟩

end Pacsni.Dashboard.Clients
