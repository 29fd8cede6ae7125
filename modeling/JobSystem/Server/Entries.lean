import JobSystem.Server.Connection

namespace JobSystem

open Lib JsonDoc

namespace Gateway

variable {σ : Type}

def MapsTo (ws : ConnId) (g : Gateway σ) (k : PyKey) : Prop := ∃ conn, g.agents.get k = some conn ∧ conn.ws = ws

structure Registrations where
  /-- The ids that the connection registered, and that nobody has taken out or registered since. -/
  kept : List PyKey
  /-- The id of the register frame whose call of `dispatch_pending` has not returned yet. -/
  dispatching : Option PyKey
  /-- The id of the last register frame whose call returned. -/
  last : PyKey

namespace Registrations

def start : Registrations := ⟨[], none, .none⟩

variable (it : Interpreter) (depth : Nat)

def ofFrame (raw : RawFrame) : Option PyKey :=
  match raw.parseMessage it depth with
  | .ok message => registered message
  | .error _ => none

def observe (s : Connection σ) (l : ConnectionLabel σ) (_ : Connection σ) (r : Registrations) : Registrations :=
  match l with
  | .receive =>
      match s.inbox.head?.bind (ofFrame it depth) with
      | some k => { r with kept := k :: r.kept, dispatching := some k }
      | none => r
  | .dispatched true => { r with dispatching := none }
  | .dispatched false => { r with dispatching := none, last := r.dispatching.getD r.last }
  | .other (.register k _) | .other (.unregister k) => { r with kept := r.kept.filter (· ≠ k) }
  | _ => r

/-- Every id of the connection that is still kept is the last one that was registered to the end, and is no
value that is false. -/
def Single (r : Registrations) : Prop := ∀ k ∈ r.kept, k = r.last ∧ k.truthy = true

instance (r : Registrations) : Decidable r.Single := inferInstanceAs (Decidable (∀ k ∈ r.kept, _))

end Registrations

section MapsTo

variable {ws : ConnId} {g g' : Gateway σ}

theorem mapsTo_iff {k : PyKey} : MapsTo ws g k ↔ (g.agents.get k).map AgentEntry.ws = some ws := by
  rw [MapsTo, Option.map_eq_some_iff]

theorem SameSockets.mapsTo (h : SameSockets g g') (k : PyKey) : MapsTo ws g' k ↔ MapsTo ws g k := by
  rw [mapsTo_iff, mapsTo_iff, h k]

theorem mapsTo_register {svc : Services σ} {k k' : PyKey} :
    MapsTo ws (register svc ws k g) k' ↔ k' = k ∨ MapsTo ws g k' := by
  rw [mapsTo_iff, mapsTo_iff, register, Dict.get_set]
  split
  · next hk => exact ⟨fun _ => .inl hk, fun _ => rfl⟩
  · next hk => exact ⟨.inr, fun h => h.resolve_left hk⟩

theorem mapsTo_set {k k' : PyKey} {conn : AgentEntry} (hconn : conn.ws ≠ ws) :
    MapsTo ws { g with agents := g.agents.set k conn } k' ↔ k' ≠ k ∧ MapsTo ws g k' := by
  rw [mapsTo_iff, mapsTo_iff, Dict.get_set]
  split
  · next hk => exact ⟨fun h => absurd (Option.some.inj h) hconn, fun h => absurd hk h.1⟩
  · next hk => exact ⟨fun h => ⟨hk, h⟩, fun h => h.2⟩

theorem mapsTo_pop {k k' : PyKey} :
    MapsTo ws { g with agents := g.agents.pop k } k' ↔ k' ≠ k ∧ MapsTo ws g k' := by
  rw [mapsTo_iff, mapsTo_iff, Dict.get_pop]
  split
  · next hk => exact ⟨nofun, fun h => absurd hk h.1⟩
  · next hk => exact ⟨fun h => ⟨hk, h⟩, fun h => h.2⟩

theorem mapsTo_finish {agentId k : PyKey} :
    MapsTo ws (finish agentId g) k ↔ MapsTo ws g k ∧ ¬ (k = agentId ∧ k.truthy = true) := by
  rw [finish]
  split
  · next htruthy =>
      have hpop : MapsTo ws { g with agents := g.agents.pop agentId } k ↔ k ≠ agentId ∧ MapsTo ws g k := mapsTo_pop
      rw [mapsTo_iff] at hpop ⊢
      refine hpop.trans ⟨fun h => ⟨h.2, fun hk => h.1 hk.1⟩, fun h => ⟨?_, h.1⟩⟩
      rintro rfl
      exact h.2 ⟨rfl, htruthy⟩
  · next hfalsy =>
      refine ⟨fun h => ⟨h, ?_⟩, fun h => h.1⟩
      rintro ⟨rfl, htruthy⟩
      exact hfalsy htruthy

theorem mapsTo_apply {a : Activity σ} (h : a.apply ws g = some g') {k : PyKey} :
    MapsTo ws g' k ↔ MapsTo ws g k ∧
      match a with
      | .register k' _ | .unregister k' => k ≠ k'
      | _ => True := by
  cases a with
  | register k' conn =>
      rw [Activity.apply] at h
      split at h
      · cases h
      · next hne =>
          cases h
          rw [mapsTo_set hne, and_comm]
  | unregister k' =>
      cases h
      rw [mapsTo_pop, and_comm]
  | update k' t n =>
      cases h
      have hsame : SameSockets g (onEntry k' (fun conn => { conn with lastHeartbeatAt := t, inFlight := n }) g) := by
        refine sameSockets_onEntry ?_ g
        exact fun _ => rfl
      rw [hsame.mapsTo, and_true]
  | locks | store =>
      cases h
      exact (and_true _).symm.to_iff

end MapsTo

namespace Connection

variable {it : Interpreter} {depth : Nat} {svc : Services σ} {ws : ConnId} {g : Gateway σ} {frames : List RawFrame}
  {s t : Connection σ}

theorem receive_cases (raw : RawFrame) (agentId : PyKey) (hp : s.point = .waiting agentId) :
    (∃ k, Registrations.ofFrame it depth raw = some k ∧
      receive it depth svc ws raw agentId s =
        { s with gateway := register svc ws k s.gateway, point := .dispatching agentId k }) ∨
    (Registrations.ofFrame it depth raw = none ∧
      receive it depth svc ws raw agentId s = { s with gateway := finish agentId s.gateway, point := .ended }) ∨
    (Registrations.ofFrame it depth raw = none ∧
      SameSockets s.gateway (receive it depth svc ws raw agentId s).gateway ∧
      ((receive it depth svc ws raw agentId s).point = .waiting agentId ∨
        (receive it depth svc ws raw agentId s).point = .dispatching agentId agentId)) := by
  cases hmessage : raw.parseMessage it depth with
  | error e => exact .inr (.inl ⟨by rw [Registrations.ofFrame, hmessage], by rw [receive, hmessage]⟩)
  | ok message =>
      have hframe : Registrations.ofFrame it depth raw = registered message := by
        rw [Registrations.ofFrame, hmessage]
      by_cases hnull : message = .null
      · subst message
        have hrecv : receive it depth svc ws raw agentId s = s := by rw [receive, hmessage]
        rw [hrecv]
        exact .inr (.inr ⟨hframe, fun _ => rfl, .inl hp⟩)
      · rw [receive_message hmessage hnull, hframe]
        cases hreg : registered message with
        | some k => exact .inl ⟨k, rfl, by rw [safeDispatch_register hreg, resume]⟩
        | none =>
            obtain ⟨hsame, hkeep⟩ : SameSockets s.gateway (safeDispatch svc ws message agentId s.gateway).2 ∧
                Keeping agentId (safeDispatch svc ws message agentId s.gateway).1 := safeDispatch_quiet hreg _
            revert hsame hkeep
            rcases safeDispatch svc ws message agentId s.gateway with ⟨h, g'⟩
            rintro hsame (rfl | rfl)
            · exact .inr (.inr ⟨rfl, hsame, .inl rfl⟩)
            · exact .inr (.inr ⟨rfl, hsame, .inr rfl⟩)

/-- While the handler lives, the registry maps to its websocket what the connection has kept, and the handler
holds the last id that was registered to the end. -/
structure Tracked (ws : ConnId) (p : Connection σ × Registrations) : Prop where
  kept : ∀ k, MapsTo ws p.1.gateway k ↔ k ∈ p.2.kept
  waiting : ∀ agentId, p.1.point = .waiting agentId → agentId = p.2.last ∧ p.2.dispatching = none
  dispatching : ∀ agentId next, p.1.point = .dispatching agentId next →
    agentId = p.2.last ∧ next = p.2.dispatching.getD p.2.last

theorem tracked_step {p q : Connection σ × Registrations} {l : ConnectionLabel σ} (hT : Tracked ws p)
    (hs : step it depth svc ws l p.1 = some q.1) (hg : q.2 = Registrations.observe it depth p.1 l q.1 p.2)
    (hq : q.1.point ≠ .ended) : Tracked ws q := by
  obtain ⟨s, r⟩ := p
  obtain ⟨t, r'⟩ := q
  obtain rfl : r' = Registrations.observe it depth s l t r := hg
  rcases step_cases hs with ⟨raw, inbox, agentId, rfl, hp, hin, rfl⟩ | ⟨raised, agentId, next, rfl, hp, rfl⟩ |
    ⟨agentId, rfl, hp, -, -, rfl⟩ | ⟨rfl, rfl⟩ | ⟨a, g', rfl, ha, rfl⟩
  · obtain ⟨rfl, hnone⟩ := hT.waiting agentId hp
    have hhead : s.inbox.head?.bind (Registrations.ofFrame it depth) = Registrations.ofFrame it depth raw := by
      rw [hin]
      rfl
    rcases receive_cases (s := { s with inbox := inbox }) raw r.last hp with ⟨k, hk, he⟩ | ⟨-, he⟩ | ⟨hk, hsame, hpoint⟩
    · dsimp only [Registrations.observe]
      rw [hhead, hk, he]
      refine ⟨fun k' => ?_, nofun, ?_⟩
      · rw [mapsTo_register, hT.kept k', List.mem_cons]
      · rintro _ _ ⟨⟩
        exact ⟨rfl, rfl⟩
    · exact absurd (congrArg Connection.point he) hq
    · dsimp only [Registrations.observe]
      rw [hhead, hk]
      refine ⟨fun k' => (hsame.mapsTo k').trans (hT.kept k'), fun agentId h => ?_, fun agentId next h => ?_⟩
      · rcases hpoint with h' | h' <;> rw [h'] at h <;> cases h
        exact ⟨rfl, hnone⟩
      · rcases hpoint with h' | h' <;> rw [h'] at h <;> cases h
        exact ⟨rfl, by rw [hnone]; rfl⟩
  · obtain ⟨rfl, rfl⟩ := hT.dispatching agentId next hp
    cases raised with
    | true =>
        refine ⟨hT.kept, ?_, nofun⟩
        rintro _ ⟨⟩
        exact ⟨rfl, rfl⟩
    | false =>
        refine ⟨hT.kept, ?_, nofun⟩
        rintro _ ⟨⟩
        exact ⟨rfl, rfl⟩
  · exact absurd rfl hq
  · exact ⟨hT.kept, hT.waiting, hT.dispatching⟩
  · have hmaps : ∀ k, MapsTo ws g' k ↔ MapsTo ws s.gateway k ∧ _ := fun k => mapsTo_apply ha
    cases a with
    | register k conn | unregister k =>
        refine ⟨fun k' => ?_, hT.waiting, hT.dispatching⟩
        dsimp only [Registrations.observe]
        rw [hmaps, hT.kept k', List.mem_filter, decide_eq_true_iff]
    | update | locks | store =>
        refine ⟨fun k' => ?_, hT.waiting, hT.dispatching⟩
        rw [hmaps, and_true]
        exact hT.kept k'

theorem tracked_start (hfresh : ∀ k, ¬ MapsTo ws g k) : Tracked ws (start g frames, Registrations.start) := by
  refine ⟨fun k => ⟨fun h => absurd h (hfresh k), fun hk => absurd hk List.not_mem_nil⟩, ?_, nofun⟩
  rintro _ ⟨⟩
  exact ⟨rfl, rfl⟩

theorem step_ended {l : ConnectionLabel σ} (h : step it depth svc ws l s = some t) (hs : s.point ≠ .ended)
    (ht : t.point = .ended) : ∃ agentId, s.point = .waiting agentId ∧ t.gateway = finish agentId s.gateway := by
  rcases step_cases h with ⟨raw, inbox, agentId, rfl, hp, hin, rfl⟩ | ⟨raised, agentId, next, rfl, hp, rfl⟩ |
    ⟨agentId, rfl, hp, -, -, rfl⟩ | ⟨rfl, rfl⟩ | ⟨a, g', rfl, ha, rfl⟩
  · rcases receive_cases (s := { s with inbox := inbox }) raw agentId hp with ⟨k, -, he⟩ | ⟨-, he⟩ | ⟨-, -, hpoint⟩
    · rw [he] at ht
      cases ht
    · exact ⟨agentId, hp, by rw [he]⟩
    · rcases hpoint with he | he <;> rw [he] at ht <;> cases ht
  · cases ht
  · exact ⟨agentId, hp, rfl⟩
  · exact absurd ht hs
  · exact absurd ht hs

/-- Nobody brings an entry of an ended connection back. -/
theorem run_ended (h : (machine it depth svc ws g frames).Run (fun _ _ => True) s t) (hs : s.point = .ended) :
    t.point = .ended ∧ ∀ k, MapsTo ws t.gateway k → MapsTo ws s.gateway k := by
  refine h.invariant (I := fun t => t.point = .ended ∧ ∀ k, MapsTo ws t.gateway k → MapsTo ws s.gateway k) ?_
    ⟨hs, fun _ hk => hk⟩
  rintro u l v ⟨hu, hmaps⟩ - hst
  rcases step_cases hst with ⟨raw, inbox, agentId, rfl, hp, -⟩ | ⟨raised, agentId, next, rfl, hp, -⟩ |
    ⟨agentId, rfl, hp, -⟩ | ⟨rfl, rfl⟩ | ⟨a, g', rfl, ha, rfl⟩
  · rw [hu] at hp
    cases hp
  · rw [hu] at hp
    cases hp
  · rw [hu] at hp
    cases hp
  · exact ⟨hu, hmaps⟩
  · exact ⟨hu, fun k hk => hmaps k ((mapsTo_apply ha).mp hk).1⟩

/-- No id maps to a connection after its handler has ended if and only if every id that it has kept is the last one
that was registered to the end, and is no value that is false. -/
theorem entries_end_iff (hfresh : ∀ k, ¬ MapsTo ws g k) {p q : Connection σ × Registrations}
    {l : ConnectionLabel σ}
    (hrun : ((machine it depth svc ws g frames).observed Registrations.start
      (Registrations.observe it depth)).Reachable p)
    (hstep : ((machine it depth svc ws g frames).observed Registrations.start
      (Registrations.observe it depth)).step l p = some q)
    (hp : p.1.point ≠ .ended) (hq : q.1.point = .ended) :
    (∀ t, (machine it depth svc ws g frames).Run (fun _ _ => True) q.1 t → ∀ k, ¬ MapsTo ws t.gateway k) ↔
      p.2.Single := by
  have hT : p.1.point ≠ .ended → Tracked ws p := by
    refine hrun.invariant (I := fun p => p.1.point ≠ .ended → Tracked ws p) ?_ fun _ => tracked_start hfresh
    intro u l v hu _ huv hv
    obtain ⟨hst, hg⟩ := Machine.observed_step.mp huv
    refine tracked_step (hu fun he => hv ?_) hst hg hv
    exact (run_ended (Machine.Run.single hst) he).1
  obtain ⟨hst, -⟩ := Machine.observed_step.mp hstep
  obtain ⟨agentId, hw, hfin⟩ := step_ended hst hp hq
  obtain ⟨rfl, -⟩ := (hT hp).waiting agentId hw
  have hleft : ∀ k, MapsTo ws q.1.gateway k ↔ k ∈ p.2.kept ∧ ¬ (k = p.2.last ∧ k.truthy = true) := by
    intro k
    rw [hfin, mapsTo_finish, (hT hp).kept k]
  constructor
  · intro h k hk
    by_contra hne
    exact h q.1 .refl k ((hleft k).mpr ⟨hk, hne⟩)
  · intro h t ht k hk
    obtain ⟨hkept, hne⟩ := (hleft k).mp ((run_ended ht hq).2 k hk)
    exact hne (h k hkept)

section Runs

def registerFrame : RawFrame := .text "\x7b\"type\": \"register\", \"agent_id\": \"agent-1\"\x7d"

def registerAgain : RawFrame := .text "\x7b\"type\": \"register\", \"agent_id\": \"agent-2\"\x7d"

theorem entries_end_once : ∃ q, (machine .default 1000 (.empty .epoch) 0 (.empty ()) [registerFrame]).Reachable q ∧
    q.point = .ended ∧ ∀ k, ¬ MapsTo 0 q.gateway k := by
  let M := (machine .default 1000 (.empty .epoch) 0 (.empty ()) [registerFrame]).observed Registrations.start
    (Registrations.observe .default 1000)
  obtain ⟨p, hrun, hp, hsingle, hstop⟩ :=
    Machine.exists_run (M := M) (P := fun _ _ => True)
      (Q := fun p => p.1.point ≠ .ended ∧ p.2.Single ∧ (M.step .stop p).any (fun q => q.1.point = .ended) = true)
      [.receive, .dispatched false, .close] (start (.empty ()) [registerFrame], Registrations.start) (by decide +kernel)
  obtain ⟨q, hq, hend⟩ := (Option.any_eq_true _ _).mp hstop
  have hreach : (machine .default 1000 (.empty .epoch) 0 (.empty ()) [registerFrame]).Reachable q.1 :=
    Machine.Run.forget (P := fun _ _ => True) (hrun.tail ⟨.stop, trivial, hq⟩)
  have hfresh : ∀ k, ¬ MapsTo 0 (.empty ()) k := by
    rintro k ⟨conn, hconn, -⟩
    cases hconn
  exact ⟨q.1, hreach, of_decide_eq_true hend,
    (entries_end_iff hfresh hrun hq hp (of_decide_eq_true hend)).mpr hsingle q.1 .refl⟩

/-- An agent that registers under a second id leaves the first one behind. -/
theorem entries_end_false : ¬ ∀ frames t,
    (machine .default 1000 (.empty .epoch) 0 (.empty ()) frames).Reachable t → t.point = .ended →
      ∀ k, ¬ MapsTo 0 t.gateway k := by
  intro h
  obtain ⟨t, hrun, hend, hleft⟩ :=
    Machine.exists_run (M := machine .default 1000 (.empty .epoch) 0 (.empty ()) [registerFrame, registerAgain])
      (P := fun _ _ => True)
      (Q := fun t => t.point = .ended ∧ (t.gateway.agents.get (.str "agent-1")).map AgentEntry.ws = some 0)
      [.receive, .dispatched false, .receive, .dispatched false, .close, .stop]
      (start (.empty ()) [registerFrame, registerAgain]) (by decide +kernel)
  exact h _ t hrun hend _ (mapsTo_iff.mpr hleft)

end Runs

end Connection

end Gateway

end JobSystem
