import DnsmasqRs.Dhcp.Pool
import Mathlib.Data.List.Forall2

/-!
# The ranges of an interface

A packet on one interface leaves its netmask in the ranges that end in its subnet, and a packet on
another meets it there.  If the subnets are disjoint that does no harm: a range with the netmask of
another interface has an end in the subnet of that one (`isLinked_guessNetmask`).
-/

namespace DnsmasqRs.Dhcp

open List

variable {ifaces : List ArrivalInterface} {i : ArrivalInterface} {c c' : DhcpContext}

/-- The interface has the address in its subnet. -/
def ArrivalInterface.reaches (i : ArrivalInterface) (a : Ipv4Addr) : Prop :=
  isSameNet i.localAddr a i.netmask

/-- No address is in the subnets of two of the interfaces. -/
def DisjointSubnets (ifaces : List ArrivalInterface) : Prop :=
  ∀ i ∈ ifaces, ∀ j ∈ ifaces, ∀ a, i.reaches a → j.reaches a → i = j

theorem disjointSubnets_singleton : DisjointSubnets [i] := by
  intro j hj k hk _ _ _
  rw [mem_singleton.mp hj, mem_singleton.mp hk]

/-- The netmask a range has for an interface: its own, if it is configured. -/
def netmaskFor (i : ArrivalInterface) (c : DhcpContext) : Ipv4Addr :=
  if c.flags.contains ContextFlags.netmask then c.netmask else i.netmask

/-- Both ends of the range are in the subnet of the interface's address. -/
def onSubnet (i : ArrivalInterface) (c : DhcpContext) : Bool :=
  isSameNet i.localAddr c.start (netmaskFor i c) && isSameNet i.localAddr c.finish (netmaskFor i c)

/-- What calls for the interfaces make of a range. -/
structure Guessed (ifaces : List ArrivalInterface) (c c' : DhcpContext) : Prop where
  free : c.flags.contains ContextFlags.netmask = false → c.netmask = .unspecified
  same : ∃ netmask broadcast localAddr router, c' = { c with netmask, broadcast, localAddr, router }
  netmask : c'.netmask = c.netmask ∨ c.flags.contains ContextFlags.netmask = false
    ∧ ∃ j ∈ ifaces, c'.netmask = j.netmask ∧ (j.reaches c.start ∨ j.reaches c.finish)

theorem Guessed.guessNetmask (h : Guessed ifaces c c') (hi : i ∈ ifaces) :
    Guessed ifaces c (guessNetmask i c') := by
  obtain ⟨hc, ⟨netmask, broadcast, localAddr, router, rfl⟩, hmask⟩ := h
  unfold Dhcp.guessNetmask
  split
  · next hfree => exact ⟨hc, ⟨_, _, _, _, rfl⟩, .inr ⟨hfree.1, i, hi, rfl, hfree.2⟩⟩
  · exact ⟨hc, ⟨_, _, _, _, rfl⟩, hmask⟩

theorem Guessed.linkContext (h : Guessed ifaces c c') (hi : i ∈ ifaces) :
    Guessed ifaces c (linkContext i c') := by
  obtain ⟨hc, ⟨_, _, _, _, heq⟩, hmask⟩ := h.guessNetmask hi
  unfold Dhcp.linkContext
  rw [heq] at hmask ⊢
  dsimp only
  split
  all_goals exact ⟨hc, ⟨_, _, _, _, rfl⟩, hmask⟩

/-- **A netmask of another interface links no range.** -/
theorem isLinked_guessNetmask (h : Guessed ifaces c c') (hdisjoint : DisjointSubnets ifaces)
    (hi : i ∈ ifaces) :
    isLinked i (guessNetmask i c') = (netmaskFor i c ≠ .unspecified && onSubnet i c) := by
  obtain ⟨hc, ⟨netmask, broadcast, localAddr, router, rfl⟩, hmask⟩ := h
  unfold guessNetmask onSubnet netmaskFor
  dsimp only at hmask ⊢
  cases hflag : c.flags.contains ContextFlags.netmask with
  | true =>
    obtain rfl : netmask = c.netmask :=
      hmask.resolve_right fun hguess => by simp [hguess.1] at hflag
    simp [isLinked, Bool.and_assoc]
  | false =>
    by_cases hguess : i.reaches c.start ∨ i.reaches c.finish
    · rw [if_pos ⟨rfl, hguess⟩]
      simp [isLinked, Bool.and_assoc]
    · rw [if_neg fun hfree => hguess hfree.2]
      have hoff : isSameNet i.localAddr c.start i.netmask = false := by
        exact Bool.eq_false_iff.mpr fun hstart => hguess (.inl hstart)
      simp only [Bool.false_eq_true, if_false, hoff, Bool.false_and, Bool.and_false]
      rw [Bool.eq_false_iff]
      intro hlinked
      simp only [isLinked, Bool.and_eq_true, decide_eq_true_eq, isSameNet, beq_iff_eq] at hlinked
      obtain ⟨⟨hne, hstart⟩, hfinish⟩ := hlinked
      obtain rfl | ⟨-, j, hj, rfl, hends⟩ := hmask
      · exact hne (hc hflag)
      · -- The interface's own address is in the subnet of `j`, by way of the end that is there.
        have hown : j.reaches i.localAddr := by
          simp only [ArrivalInterface.reaches, isSameNet, beq_iff_eq] at hends ⊢
          rcases hends with hend | hend
          · rw [hend, hstart]
          · rw [hend, hfinish]
        obtain rfl := hdisjoint i hi j hj _ (by simp [ArrivalInterface.reaches, isSameNet]) hown
        exact hguess hends

/-- The range as it is while it is linked to the interface. -/
def LinkedTo (i : ArrivalInterface) (c c' : DhcpContext) : Prop :=
  ∃ netmask broadcast, c' = { c with
    netmask, broadcast, localAddr := i.localAddr, router := i.localAddr }

theorem linkedTo_linkContext (h : Guessed ifaces c c') (hi : i ∈ ifaces)
    (hlinked : isLinked i (guessNetmask i c')) : LinkedTo i c (linkContext i c') := by
  obtain ⟨-, ⟨_, _, _, _, heq⟩, -⟩ := h.guessNetmask hi
  unfold linkContext
  rw [if_pos hlinked, heq]
  exact ⟨_, _, rfl⟩

/-- The ranges after calls for the interfaces. -/
def afterLinks (contexts : List DhcpContext) (calls : List ArrivalInterface) : List DhcpContext :=
  calls.foldl (fun contexts j => (linkContextsForInterface contexts j).1) contexts

theorem guessed_afterLinks (hcalls : calls ⊆ ifaces)
    (h : Forall₂ (Guessed ifaces) contexts contexts') :
    Forall₂ (Guessed ifaces) contexts (afterLinks contexts' calls) := by
  induction calls generalizing contexts' with
  | nil => exact h
  | cons j calls ih =>
    rw [cons_subset] at hcalls
    exact ih hcalls.2 (forall₂_map_right_iff.mpr (h.imp fun _ _ h => h.linkContext hcalls.1))

/-- **The ranges of an interface do not depend on the packets before.** -/
theorem linkContextsForInterface_afterLinks {contexts : List DhcpContext}
    {calls : List ArrivalInterface}
    (hcontexts : ∀ c ∈ contexts, c.flags.contains ContextFlags.netmask = false →
      c.netmask = .unspecified) (hdisjoint : DisjointSubnets ifaces) (hcalls : calls ⊆ ifaces)
        (hi : i ∈ ifaces) :
    let (after, linked) := linkContextsForInterface (afterLinks contexts calls) i
    Forall₂ (LinkedTo i) (contexts.filter fun c => netmaskFor i c ≠ .unspecified
      && onSubnet i c) linked
      ∧ linked <+ after := by
  refine ⟨?_, filter_sublist.map _⟩
  have haged : Forall₂ (Guessed ifaces) contexts (afterLinks contexts calls) :=
    guessed_afterLinks hcalls (forall₂_same.mpr fun c hc =>
      ⟨hcontexts c hc, ⟨_, _, _, _, rfl⟩, .inl rfl⟩)
  generalize afterLinks contexts calls = aged at haged
  clear hcontexts
  induction haged with
  | nil => exact .nil
  | cons h _ ih =>
    have hsame := isLinked_guessNetmask h hdisjoint hi
    rw [filter_cons, filter_cons, hsame]
    split
    · next hon => exact .cons (linkedTo_linkContext h hi (hsame.trans hon)) ih
    · exact ih

/-- Packets on two interfaces before. -/
theorem linkContextsForInterface_afterLinks_home :
    let home : ArrivalInterface := ⟨.new 10 0 0 1, .new 255 255 255 0, .new 10 0 0 255, 1⟩
    let guest : ArrivalInterface := ⟨.new 10 0 1 1, .new 255 255 255 0, .new 10 0 1 255, 2⟩
    let contexts := [syntheticPoolContext (.new 10 0 0 9) (.new 10 0 0 99),
      syntheticPoolContext (.new 10 0 1 9) (.new 10 0 1 99)]
    (linkContextsForInterface (afterLinks contexts [guest, home, guest]) home).2.length = 1 := by
  intro home guest contexts
  have hdisjoint : DisjointSubnets [home, guest] := by
    intro i hi j hj a hia hja
    have hapart : ∀ i ∈ [home, guest], ∀ j ∈ [home, guest], i.netmask = j.netmask
        ∧ (isSameNet i.localAddr j.localAddr j.netmask → i = j) := by decide
    obtain ⟨hmask, hsame⟩ := hapart i hi j hj
    simp only [ArrivalInterface.reaches, isSameNet, beq_iff_eq, hmask] at hia hja hsame
    exact hsame (hia.trans hja.symm)
  have hspec := @linkContextsForInterface_afterLinks [home, guest] home contexts
    [guest, home, guest] (by decide) hdisjoint (by simp) mem_cons_self
  exact hspec.1.length_eq.symm.trans (by decide)

/-- An interface with the netmask 0.0.0.0 has every address in its subnet, but no range: a range
with that netmask counts as one without. -/
theorem linkContextsForInterface_zero_netmask :
    let i : ArrivalInterface := ⟨⟨#v[192, 168, 0, 1]⟩, .unspecified, ⟨#v[255, 255, 255, 255]⟩, 1⟩
    let c := syntheticPoolContext ⟨#v[192, 168, 0, 9]⟩ ⟨#v[192, 168, 0, 99]⟩
    DisjointSubnets [i] ∧ c.netmask = .unspecified ∧ c.flags.contains ContextFlags.netmask = false
      ∧ onSubnet i c = true ∧ (linkContextsForInterface (afterLinks [c] []) i).2 = [] := by
  intro i c
  exact ⟨disjointSubnets_singleton, by decide +kernel⟩

end DnsmasqRs.Dhcp
