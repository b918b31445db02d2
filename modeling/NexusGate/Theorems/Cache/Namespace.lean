import NexusGate.Cache.SemanticCache
import NexusGate.Text.Separator

/-! # What a namespace stands for

The hashed string determines the tenant and everything of the request but the text of its last message, and
the families of keys do not meet. -/

namespace NexusGate.Cache
open Gateway Text

/-- The requests that may share a namespace: same tenant, route, temperature, token limit, earlier messages
    and role of the last message. -/
structure SameContext (t : String) (r : ChatRequest) (t' : String) (r' : ChatRequest) : Prop where
  tenant : t = t'
  model : r.model = r'.model
  temperature : r.temperature = r'.temperature
  maxTokens : r.maxTokens = r'.maxTokens
  context : r.context = r'.context
  lastRole : r.last.role = r'.last.role

theorem messageDump_eq (m : ChatMessage) :
    messageDump m = .obj [("content", .str m.content), ("role", .str m.role.value)] := by
  simp [messageDump, Json.dict, List.orderedInsert]

theorem messageDump_injective : Function.Injective messageDump := by
  rintro ⟨role, content⟩ ⟨role', content'⟩ h
  simp only [messageDump_eq, Json.obj.injEq, List.cons.injEq, Prod.mk.injEq, Json.str.injEq, true_and, and_true] at h
  obtain ⟨rfl, hrole⟩ := h
  rw [Role.value_injective hrole]

theorem dict_material (a b c d e f : Json) :
    Json.dict [("tenant", a), ("route", b), ("temperature", c), ("max_tokens", d), ("context", e), ("last_role", f)] =
      .obj [("context", e), ("last_role", f), ("max_tokens", d), ("route", b), ("temperature", c), ("tenant", a)] := by
  simp [Json.dict, List.orderedInsert]

/-- The hashed string is the same exactly for requests that may share a namespace. -/
theorem material_eq_iff {t t' : String} {r r' : ChatRequest} :
    material t r = material t' r' ↔ SameContext t r t' r' := by
  constructor
  · intro h
    have hd := Json.dumps_injective h
    simp only [dict_material, Json.obj.injEq, List.cons.injEq, Prod.mk.injEq, Json.str.injEq, Json.arr.injEq, true_and,
      and_true] at hd
    obtain ⟨hcontext, hrole, htokens, hmodel, htemp, htenant⟩ := hd
    refine ⟨htenant, hmodel, ?_, ?_, messageDump_injective.list_map hcontext, Role.value_injective hrole⟩
    · cases ha : r.temperature <;> cases hb : r'.temperature <;> simp_all
    · cases ha : r.maxTokens <;> cases hb : r'.maxTokens <;> simp_all [Number.ofNat_injective.eq_iff]
  · rintro ⟨rfl, hmodel, htemp, htokens, hcontext, hrole⟩
    simp only [material, hmodel, htemp, htokens, hcontext, hrole]

/-! ### Keys -/

theorem isHex_no_colon {s : String} (h : isHex s = true) : ':' ∉ s.toList := fun hc =>
  absurd (List.all_eq_true.mp h ':' hc) (by decide)

theorem namespaceFor_no_colon {sha : Sha256} {t : String} {r : ChatRequest} : ':' ∉ (namespaceFor sha t r).toList := by
  intro hc
  rw [namespaceFor, Sha256.short, String.toList_ofList] at hc
  exact isHex_no_colon (sha.hex _) (List.mem_of_mem_take hc)

theorem entryKey_inj {ns ns' id id' : String} (h : ':' ∉ ns.toList) (h' : ':' ∉ ns'.toList)
    (he : entryKey ns id = entryKey ns' id') : ns = ns' ∧ id = id' := by
  simp only [entryKey, entryPrefix, String.append_assoc, String.append_right_inj] at he
  rw [← String.append_assoc, ← String.append_assoc] at he
  exact eq_of_first_sep (c := ':') rfl h h' he

end NexusGate.Cache
