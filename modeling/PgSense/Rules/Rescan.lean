import PgSense.Rules.CardMatches
import PgSense.Rules.EmailMatches
import PgSense.Rules.EngineScan
import PgSense.Rules.IbanMatches
import PgSense.Rules.PhoneMatches
import PgSense.Rules.SsnMatches

/-! A match on its own. Without its surroundings each detector finds it again, and, IBANs aside,
nothing else. -/

namespace PgSense
open Library
set_option autoImplicit false

section Alone
variable {value m : String} {start stop p : Nat}

theorem CreditCard.CardAt.alone (h : CardAt value start stop m) :
    CardAt m 0 (utf8 m).length m where
  slice := slice?_self m
  before := rfl
  after := byteAt_of_le (Nat.le_refl _)
  first := h.first
  last := h.last
  digits := h.digits
  inner := h.inner
  luhn := h.luhn

theorem CreditCard.scan_alone (h : CardAt value start stop m) : scan m = [m] := by
  have hstep : step m 0 = (some m, (utf8 m).length) := by
    apply step_of_cardAt h.alone
    rw [byteAt_of_le (Nat.le_refl _)]
    exact .inr fun hsep => Bool.false_ne_true hsep.1
  have hpos : 0 < (utf8 m).length := by
    have hlow := h.digits.1
    have hle : (utf8 m).countP isAsciiDigit ≤ (utf8 m).length := List.countP_le_length
    omega
  rw [scan, scanFrom_eq]
  exact scanLoop_whole hpos hstep

theorem Iban.IbanAt.alone (h : IbanAt value start stop m) : IbanAt m 0 (utf8 m).length m where
  slice := slice?_self m
  before := rfl
  after := byteAt_of_le (Nat.le_refl _)
  opening := h.opening
  first := h.first
  last := h.last
  inner := h.inner
  upper := h.upper
  check := h.check

theorem Iban.mem_scan_alone (h : IbanAt value start stop m) : m ∈ scan m := by
  have hstep := step_of_ibanAt h.alone
  have hlt := lt_of_byteAt (step_eq_some.mp hstep).2.1
  rw [scan_eq_filterMap]
  exact List.mem_filterMap.mpr ⟨0, List.mem_range.mpr (by omega), hstep⟩

/-- The one `@` of a match is found with the match around it. -/
theorem Email.scan_alone (h : FindsAt value p m) : scan m = [m] := by
  have hvalid := (Option.filter_eq_some_iff.mp h.2).2
  obtain ⟨localPart, domain, haddress⟩ := Validators.exists_address hvalid
  have hfound : FindsAt m (signAt m) m := by
    have hends := findsAt_of_address (u := "") (w := "") hvalid rfl ⟨[], [], rfl, by simp, rfl⟩
    simpa [utf8] using hends
  have hother : ∀ i, i ≠ signAt m → step m i = (none, i + 1) := by
    intro i hi
    have hbyte : byteAt (· == 64) (utf8 m) i = false := by
      rw [← Bool.not_eq_true, byteAt_iff]
      rintro ⟨b, hb, hsign⟩
      rw [eq_of_beq hsign] at hb
      exact hi ((Address.sign_unique haddress hb).trans (signAt_eq haddress).symm)
    rw [step, hbyte]
    rfl
  have hstep : step m (signAt m) = (some m, signAt m + 1) :=
    Prod.ext (step_eq_some.mpr hfound) rfl
  rw [scan_eq]
  apply scanLoop_single (lt_of_byteAt hfound.1) hstep (Nat.lt_succ_self _)
  · exact fun i hi => hother i (Nat.ne_of_lt hi)
  · exact fun i hi _ => hother i (Nat.ne_of_gt hi)

theorem Phone.scan_alone (cr : Crates) (h : m ∈ scan cr value) : scan cr m = [m] := by
  rw [scan_eq_scanWith] at h
  obtain ⟨p, _, _, hp⟩ := exists_of_mem_scanLoop h
  rw [scan_eq_scanWith]
  exact scanWith_alone (numberAt_of_step (Prod.ext hp rfl))

theorem Ssn.scan_alone (h : (step value p).1 = some m) : scan m = [m] := by
  obtain ⟨haccepted, hlayout⟩ := step_eq_some.mp h
  obtain ⟨_, _, hslice, hvalid⟩ := acceptedAt_eq_some.mp haccepted
  have hlen := length_of_slice? hslice
  have hself := slice?_self m
  rw [hlen] at hself
  have hstep : (step m 0).1 = some m := by
    refine step_eq_some.mpr ⟨acceptedAt_eq_some.mpr ⟨rfl, ?_, hself, hvalid⟩, hlayout⟩
    exact byteAt_of_le (Nat.le_of_eq hlen)
  rw [scan_eq_filterMap, hlen]
  simp [hstep]

end Alone

/-- A match is found in the text it consists of, and but for IBANs it is all that is found. -/
theorem Detector.match_redetected (cr : Crates) (d : Detector) {value m : String}
    (h : m ∈ d.scan cr value) : m ∈ d.scan cr m ∧ (d ≠ iban → d.scan cr m = [m]) := by
  have halone : d.scan cr m = [m] → m ∈ d.scan cr m ∧ (d ≠ iban → d.scan cr m = [m]) := by
    intro heq
    refine ⟨?_, fun _ => heq⟩
    rw [heq]
    exact List.mem_cons_self
  have hstep := h
  rw [scan_eq] at hstep
  obtain ⟨p, _, _, hp⟩ := exists_of_mem_scanLoop hstep
  cases d with
  | creditCard => exact halone (CreditCard.scan_alone (CreditCard.cardAt_of_step (Prod.ext hp rfl)))
  | email => exact halone (Email.scan_alone (Email.step_eq_some.mp hp))
  | iban =>
    obtain ⟨stop, hiban⟩ := Iban.ibanAt_of_step hp
    exact ⟨Iban.mem_scan_alone hiban, fun hne => absurd rfl hne⟩
  | phone => exact halone (Phone.scan_alone cr h)
  | ssn => exact halone (Ssn.scan_alone hp)

theorem Detector.match_redetected_ssn :
    "123-45-6789" ∈ ssn.scan Crates.sample "123-45-6789" ∧
      (ssn ≠ iban → ssn.scan Crates.sample "123-45-6789" = ["123-45-6789"]) :=
  match_redetected Crates.sample ssn
    (show "123-45-6789" ∈ ssn.scan Crates.sample "id 123-45-6789." by decide)

end PgSense
