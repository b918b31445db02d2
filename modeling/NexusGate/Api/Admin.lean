import Mathlib.Data.List.Basic

/-! # Admin requests

What `CreateKeyRequest` of `app/api/admin.py` accepts as a tenant id: `Field(min_length=1,
pattern=r"^[A-Za-z0-9._-]+$")`. -/

namespace NexusGate.Api

/-- `[A-Za-z0-9._-]`. -/
def tenantChar (c : Char) : Bool := c.isAlphanum || c == '.' || c == '_' || c == '-'

def tenantPattern (tenantId : String) : Bool := !tenantId.isEmpty && tenantId.toList.all tenantChar

theorem tenantPattern_no_colon {t : String} (h : tenantPattern t = true) : ':' ∉ t.toList := by
  simp only [tenantPattern, Bool.and_eq_true, List.all_eq_true] at h
  exact fun hc => absurd (h.2 ':' hc) (by decide)

end NexusGate.Api
