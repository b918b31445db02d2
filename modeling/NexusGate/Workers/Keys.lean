import NexusGate.Text.Separator
import NexusGate.Workers.Service

/-! # The keys of the job records

Which keys of `NexusGate.Workers.Jobs` can be equal. Job ids that `uuid4` gave out have no colon, so the
last colon of a record key is the one in front of the id. -/

namespace NexusGate.Workers
open Text

theorem colon_toList : (":" : String).toList = [':'] := by decide

theorem isUuidHex_no_colon {s : String} (h : isUuidHex s = true) : ':' ∉ s.toList := by
  simp only [isUuidHex, Bool.and_eq_true, List.all_eq_true] at h
  exact fun hc => absurd (h.2 ':' hc) (by decide)

theorem jobKey_inj {t t' j j' : String} (hj : ':' ∉ j.toList) (hj' : ':' ∉ j'.toList)
    (h : jobKey t j = jobKey t' j') : t = t' ∧ j = j' := by
  obtain ⟨h₁, h₂⟩ := eq_of_last_sep colon_toList hj hj' h
  exact ⟨(String.append_right_inj _).mp h₁, h₂⟩

theorem jobKey_ne_attemptsKey {t t' j j' : String} (hj : isUuidHex j = true) : jobKey t j ≠ attemptsKey t' j' := by
  intro h
  have h' : ("ragjob:" ++ t) ++ ":" ++ j = ("ragjob:" ++ t' ++ ":" ++ j') ++ ":" ++ "attempts" := by
    simpa [jobKey, attemptsKey, String.append_assoc] using h
  obtain ⟨-, rfl⟩ := eq_of_last_sep colon_toList (isUuidHex_no_colon hj) (by decide) h'
  exact absurd hj (by decide)

theorem jobKey_ne_ragjobs {t j x : String} : jobKey t j ≠ "ragjobs:" ++ x := by
  rw [jobKey, String.append_assoc, String.append_assoc]
  exact append_ne_append (by decide) (by decide)

theorem jobKey_ne_indexKey {t t' j : String} : jobKey t j ≠ indexKey t' := jobKey_ne_ragjobs
theorem jobKey_ne_dlqKey {t j : String} : jobKey t j ≠ dlqKey := jobKey_ne_ragjobs (x := "dlq")
theorem jobKey_ne_statsKey {t j : String} : jobKey t j ≠ statsKey := jobKey_ne_ragjobs (x := "stats")
theorem jobKey_ne_sequenceKey {t j : String} : jobKey t j ≠ sequenceKey := jobKey_ne_ragjobs (x := "seq")

theorem jobKey_ne_payloadKey {t j p : String} : jobKey t j ≠ payloadKey p := by
  rw [jobKey, payloadKey, String.append_assoc, String.append_assoc]
  exact append_ne_append (by decide) (by decide)

end NexusGate.Workers
