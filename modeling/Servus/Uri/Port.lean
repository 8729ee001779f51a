import Servus.Uri.Grammar

/-!
# The port of a URI

`_parseAuthority` stores the `long` that `strtol` gives in 16 bits before it looks at how far
`strtol` came. So a port text that is a number is accepted whatever the number is: one that does
not fit is taken modulo 2^16, after the saturation of `strtol` (`port_some_iff`).

`portKept_iff`: the port of an accepted string is the number that its text denotes exactly when that
number fits, or the string is rejected for an empty host.
-/

namespace Servus.Uri

open Cpp
open Grammar

/-- The authority of a string with a valid scheme. -/
def authorityOf (s : Str) : Option Str :=
  (Grammar.scheme s).map fun (scheme, r) => authority scheme r

/-- The port text of a string: what follows the first `:` behind the userinfo of its authority. -/
def portTextOf (s : Str) : Option Str := (authorityOf s).bind portText

/-- The host text of a string. -/
def hostTextOf (s : Str) : Option Str := (authorityOf s).map host

/-- A port text is accepted when it is a number, and 16 bits of the saturated number count. -/
theorem port_some_iff {t : Str} {p : UInt16} :
    port (some t) = some p ↔
      ∃ n, numeral t = some n ∧ p = UInt16.ofNat (saturate n % 2 ^ 16).toNat := by
  unfold port
  constructor
  · intro h
    obtain ⟨⟨hne, hlen⟩, hp⟩ := Option.ite_none_right_eq_some.mp h
    obtain ⟨n, hn⟩ := (strtol_used_iff hne).mp hlen
    rw [strtol_numeral hn] at hp
    exact ⟨n, hn, (Option.some.inj hp).symm⟩
  · rintro ⟨n, hn, rfl⟩
    have hne : t ≠ [] := by
      rintro rfl
      cases hn
    simp only [strtol_numeral hn]
    exact if_pos ⟨hne, trivial⟩

/-- The 16 bits are the number itself exactly when it fits. -/
theorem toNat_saturate_iff (n : Int) :
    ((UInt16.ofNat (saturate n % 2 ^ 16).toNat).toNat : Int) = n ↔ 0 ≤ n ∧ n ≤ 65535 := by
  have hnat : (UInt16.ofNat (saturate n % 2 ^ 16).toNat).toNat = (saturate n % 2 ^ 16).toNat := by
    refine UInt16.toNat_ofNat_of_lt' ?_
    rw [UInt16.size]
    omega
  rw [hnat, saturate]
  omega

/-- A string with a port text is accepted when its host is not empty and its port text is. -/
theorem URI_port_iff {s t : Str} (ht : portTextOf s = some t) {p : UInt16} :
    (∃ u, URI s = .ok u ∧ u.getPort = p) ↔ hostTextOf s ≠ some [] ∧ port (some t) = some p := by
  obtain ⟨auth, hauth, hport⟩ := Option.bind_eq_some_iff.mp ht
  have hhost : hostTextOf s ≠ some [] ↔ host auth ≠ [] := by simp [hostTextOf, hauth]
  obtain ⟨⟨scheme, r⟩, hscheme, rfl⟩ := Option.map_eq_some_iff.mp hauth
  dsimp only at hport hhost
  have hne : authority scheme r ≠ [] := by
    intro hnil
    rw [hnil] at hport
    cases hport
  rw [hhost, ← hport]
  simp only [URI_eq_ok_iff, parts_eq_some_iff, hscheme, Option.some.injEq, Prod.mk.injEq]
  constructor
  · rintro ⟨u, ⟨_, _, ⟨rfl, rfl⟩, ⟨hnil, -⟩ | ⟨-, hne', q, hq, rfl⟩⟩, rfl⟩
    · exact absurd hnil hne
    · exact ⟨hne', hq⟩
  · rintro ⟨hne', hp⟩
    exact ⟨_, ⟨scheme, r, ⟨rfl, rfl⟩, .inr ⟨hne, hne', p, hp, rfl⟩⟩, rfl⟩

/-- The port of `s` is not altered: an accepted port text denotes a number of 16 bits, which is the
port, and a string whose port text denotes no such number is rejected. -/
structure PortKept (s : Str) : Prop where
  accepted : ∀ t u, portTextOf s = some t → URI s = .ok u →
    ∃ n : Int, numeral t = some n ∧ 0 ≤ n ∧ n ≤ 65535 ∧ (u.getPort.toNat : Int) = n
  rejected : ∀ t, portTextOf s = some t → (¬ ∃ n, numeral t = some n ∧ 0 ≤ n ∧ n ≤ 65535) →
    ∃ e, URI s = .error e

/-- **Ports are kept exactly when they fit.** The port of `s` is not altered if and only if its
port text does not denote a number outside `0..65535`, or its host is empty. -/
theorem portKept_iff (s : Str) :
    PortKept s ↔ ∀ t n, portTextOf s = some t → numeral t = some n →
      (0 ≤ n ∧ n ≤ 65535) ∨ hostTextOf s = some [] := by
  constructor
  · intro h t n ht hn
    by_contra hcond
    obtain ⟨hrange, hhost⟩ := not_or.mp hcond
    -- the string is accepted, with another port than `n`
    obtain ⟨u, hu, hp⟩ := (URI_port_iff ht).mpr ⟨hhost, port_some_iff.mpr ⟨n, hn, rfl⟩⟩
    obtain ⟨m, hm, h0, h1, -⟩ := h.accepted t u ht hu
    rw [hn] at hm
    cases hm
    exact hrange ⟨h0, h1⟩
  · intro h
    have haccepted : ∀ t u, portTextOf s = some t → URI s = .ok u →
        ∃ n : Int, numeral t = some n ∧ 0 ≤ n ∧ n ≤ 65535 ∧ (u.getPort.toNat : Int) = n := by
      intro t u ht hu
      obtain ⟨hhost, hport⟩ := (URI_port_iff ht).mp ⟨u, hu, rfl⟩
      obtain ⟨n, hn, hp⟩ := port_some_iff.mp hport
      have hrange := (h t n ht hn).resolve_right hhost
      rw [hp]
      exact ⟨n, hn, hrange.1, hrange.2, (toNat_saturate_iff n).mpr hrange⟩
    refine ⟨haccepted, fun t ht hno => ?_⟩
    cases hu : URI s with
    | error e => exact ⟨e, rfl⟩
    | ok u =>
      obtain ⟨n, hn, h0, h1, -⟩ := haccepted t u ht hu
      exact absurd ⟨n, hn, h0, h1⟩ hno

/-- `http://h:65536` is accepted, with the port 0. -/
theorem not_portKept : ¬ ∀ s, PortKept s := by
  intro h
  have hsplit : splitScheme "http://h:65536".toList = some ("http".toList, "h:65536".toList) :=
    splitScheme_eq_some_iff.mpr ⟨rfl, by decide, by simp⟩
  have hport : portTextOf "http://h:65536".toList = some "65536".toList := by
    rw [portTextOf, authorityOf, Grammar.scheme, hsplit]
    decide
  obtain ⟨n, hn, -, h1, -⟩ := (h "http://h:65536".toList).accepted "65536".toList
    { scheme := "http".toList, host := "h".toList } hport (by decide)
  obtain rfl : n = 65536 := by
    have hnum : numeral "65536".toList = some 65536 := by decide
    rw [hnum] at hn
    exact (Option.some.inj hn).symm
  exact absurd h1 (by decide)

end Servus.Uri
