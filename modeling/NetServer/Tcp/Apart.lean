import NetServer.Tcp.Objects
/-!
# What happens to one connection leaves the others alone

Names and descriptors are not shared (`Objects`), so a handler of one connection and user code that calls no method of
another leave that other one, its registration and its entry as they were (`Untouched`), whatever the kernel answers.
-/

namespace NetServer
open Exec

/-- The connection, its registration and its entries are as before. -/
structure Untouched (d : ConnId) (s t : World) : Prop where
  object : t.conns d = s.conns d
  registration : ∀ o, s.conns d = some o → t.interest o.channel.fd = s.interest o.channel.fd
  entry : ∀ n, (n, d) ∈ t.tcpConnections ↔ (n, d) ∈ s.tcpConnections

namespace Untouched

variable {c d : ConnId} {o : TcpConnection} {s t u : World}

theorem same (hc : t.conns = s.conns) (hi : t.interest = s.interest) (hm : t.tcpConnections = s.tcpConnections) :
    Untouched d s t := ⟨by rw [hc], fun _ _ => by rw [hi], fun _ => by rw [hm]⟩

theorem refl (s : World) : Untouched d s s := .same rfl rfl rfl

theorem trans (h : Untouched d s t) (h' : Untouched d t u) : Untouched d s u where
  object := h'.object.trans h.object
  registration o ho := (h'.registration o (h.object.trans ho)).trans (h.registration o ho)
  entry n := (h'.entry n).trans (h.entry n)

/-- A change of another connection, and of what is registered for its descriptor. -/
theorem own (hs : Objects s) (hc : s.conns c = some o) (hcd : c ≠ d) {x : Option TcpConnection}
    (ht : t.conns = Function.update s.conns c x) (hk : ∀ f, f ≠ o.channel.fd → t.interest f = s.interest f)
    (hm : t.tcpConnections = s.tcpConnections) : Untouched d s t where
  object := by rw [ht, Function.update_of_ne (Ne.symm hcd)]
  registration y hy := hk _ (hs.unshared d c y o hy hc (Ne.symm hcd)).2
  entry n := by rw [hm]

/-- `~TcpConnection` of another connection. -/
theorem destroyed (hs : Objects s) (hc : s.conns c = some o) (hcd : c ≠ d) (ht : t.conns = Function.update s.conns c none)
    (hi : t.interest = Function.update s.interest o.socket none) (hm : t.tcpConnections = s.tcpConnections) :
    Untouched d s t where
  object := by rw [ht, Function.update_of_ne (Ne.symm hcd)]
  registration y hy := by rw [hi, Function.update_of_ne (hs.apart c d o y hc hy).symm]
  entry n := by rw [hm]

/-- The entry of another connection goes. -/
theorem erased (hs : Objects s) (hcd : c ≠ d) (hc : t.conns = s.conns) (hi : t.interest = s.interest)
    (hm : t.tcpConnections = s.tcpConnections.filter (·.1 != TcpServer.connectionName s.ipPort (c + 1))) : Untouched d s t where
  object := by rw [hc]
  registration _ _ := by rw [hi]
  entry n := by
    rw [hm, List.mem_filter]
    refine ⟨And.left, fun hmem => ⟨hmem, ?_⟩⟩
    have hn : n ≠ TcpServer.connectionName s.ipPort (c + 1) := fun he => hcd (hs.entry_own (he ▸ hmem)).symm
    simpa using hn

/-- Another connection is made. -/
theorem admitted (hs : Objects s) (hd : (s.conns d).isSome) (clientfd sock : Fd) : Untouched d s (s.admitted clientfd sock) where
  object := by
    obtain ⟨o, hd⟩ := Option.isSome_iff_exists.1 hd
    exact Function.update_of_ne (Nat.ne_of_lt (hs.allocated d o hd)) ..
  registration _ _ := rfl
  entry _ := Iff.rfl

/-- Another connection gets its entry. -/
theorem entered (hs : Objects s) (hcd : c ≠ d) : Untouched d s (s.entered c) where
  object := rfl
  registration _ _ := rfl
  entry n := by
    have gone : (n, d) ∈ s.tcpConnections.filter (·.1 != TcpServer.connectionName s.ipPort (c + 1)) ↔ (n, d) ∈ s.tcpConnections :=
      (erased (t := { s with tcpConnections := s.tcpConnections.filter (·.1 != TcpServer.connectionName s.ipPort (c + 1)) }) hs hcd
        rfl rfl rfl).entry n
    rw [← gone]
    simp [World.entered, World.assigned, Ne.symm hcd]

end Untouched

/-- The objects stay in order, and `d` is left alone if it is there. -/
abbrev Apart (d : ConnId) (s t : World) : Prop := Objects s → (s.conns d).isSome → Objects t ∧ Untouched d s t

/-- A call on `c`. -/
abbrev Spares (c d : ConnId) {α : Type} (x : M α) : Prop := Moves (fun _ => c ≠ d) (Apart d) (fun _ _ _ => True) x

/-! ## Calls on another connection -/

section
variable {c d : ConnId}

theorem Touched.untouched {s t : World} (h : Touched c s t) (hs : Objects s) (hcd : c ≠ d) : Untouched d s t := by
  cases h with
  | told => exact .same rfl rfl rfl
  | changed hc _ _ hk => exact .own hs hc hcd rfl hk rfl

theorem Touches.spares {α : Type} {x : M α} (h : Touches c x) : Spares c d x := fun s hcd =>
  (h s trivial).mono (fun _ _ ht hs _ => ⟨ht.objects hs, ht.untouched hs hcd⟩) fun _ _ _ => trivial

end

/-! ## Handlers and user code -/

section
variable (d : ConnId)

/-- User code calls no method of `d`, and neither keeps nor drops a pointer to it. -/
def spares : CallKind → ConnId → Bool := fun _ c => c != d

end

end NetServer
