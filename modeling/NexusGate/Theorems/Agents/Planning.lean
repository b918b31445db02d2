import NexusGate.Agents.Service

/-! # The searches of a plan

The searches are the queries of the lines, without repetitions and up to the number asked for, or the question. The query of
a line is its text without the marker of a list item; but the marker is also taken where no white space separates it from what
follows, and then the text is damaged. -/

namespace NexusGate.Agents
open Rag Text

/-! ### The markers of a line -/

section Marker
variable {line text rest sp : List Char} {c : Char}

theorem not_end_of_space (h : isSpace c = true) : c ≠ '.' ∧ c ≠ ')' := by
  constructor <;> rintro rfl <;> cases h

/-- White space behind a text is behind what follows its marker. -/
theorem afterMarker_append (hne : text ≠ []) (hsp : ∀ c ∈ sp, isSpace c = true) :
    afterMarker (text ++ sp) = (afterMarker text).map (· ++ sp) := by
  obtain ⟨c, cs, rfl⟩ := List.exists_cons_of_ne_nil hne
  rw [List.cons_append, afterMarker, afterMarker]
  split
  · rfl
  rw [← List.cons_append, List.dropWhile_append]
  cases hdrop : (c :: cs).dropWhile isDecimal with
  | nil =>
    -- nothing but digits: white space does not end a marker
    simp only [List.isEmpty_nil, if_true]
    cases hspaces : sp.dropWhile isDecimal with
    | nil => rfl
    | cons d rest =>
      have hd : isSpace d = true := hsp d ((List.dropWhile_suffix _).subset (hspaces ▸ List.mem_cons_self))
      simp [not_end_of_space hd]
  | cons d rest =>
    simp only [List.isEmpty_cons, Bool.false_eq_true, if_false, List.cons_append]
    split <;> rfl

theorem afterMarker_suffix (h : afterMarker text = some rest) : rest <:+ text := by
  cases text with
  | nil => cases h
  | cons c cs =>
    rw [afterMarker] at h
    split at h
    · cases h
      exact List.suffix_cons c _
    · cases hdrop : (c :: cs).dropWhile isDecimal with
      | nil => rw [hdrop] at h; cases h
      | cons d rest' =>
        rw [hdrop] at h
        dsimp only at h
        split at h
        · cases h
          exact (List.suffix_cons d rest).trans (hdrop ▸ List.dropWhile_suffix _)
        · cases h

/-- What follows the marker of a trimmed line ends like the line. -/
theorem getLast_afterMarker (h : afterMarker (strip line) = some rest) : ∀ c ∈ rest.getLast?, isSpace c = false := by
  intro c hc
  obtain ⟨before, hbefore⟩ := afterMarker_suffix h
  refine @getLast_strip line c ?_
  rw [← hbefore, List.getLast?_append]
  rw [Option.mem_def.mp hc]
  rfl

/-- The marker of a list item: a dash, an asterisk, a bullet, or a number with a full stop or a bracket. -/
inductive ListMarker : List Char → Prop
  | bullet {c : Char} : c ∈ ['-', '*', '•'] → ListMarker [c]
  | number {digits : List Char} {d : Char} : digits ≠ [] → (∀ c ∈ digits, isDecimal c = true) → d ∈ ['.', ')'] →
      ListMarker (digits ++ [d])

theorem not_decimal {c : Char} (h : c ∈ ['-', '*', '•', '.', ')']) : isDecimal c = false := by
  simp only [List.mem_cons, List.not_mem_nil, or_false] at h
  rcases h with rfl | rfl | rfl | rfl | rfl <;> rfl

theorem afterMarker_iff : afterMarker text = some rest ↔ ∃ marker, ListMarker marker ∧ text = marker ++ rest := by
  constructor
  · intro h
    cases text with
    | nil => cases h
    | cons c cs =>
      rw [afterMarker] at h
      split at h
      · rename_i hc
        cases h
        exact ⟨[c], .bullet (List.contains_iff_mem.mp hc), rfl⟩
      · cases hdrop : (c :: cs).dropWhile isDecimal with
        | nil => rw [hdrop] at h; cases h
        | cons d rest' =>
          rw [hdrop] at h
          dsimp only at h
          split at h
          · rename_i hmarker
            obtain ⟨hc, hd⟩ := Bool.and_eq_true_iff.mp hmarker
            cases h
            refine ⟨(c :: cs).takeWhile isDecimal ++ [d], .number ?_ (fun _ => List.mem_takeWhile_imp)
              (List.contains_iff_mem.mp hd), ?_⟩
            · rw [List.takeWhile_cons_of_pos hc]
              exact List.cons_ne_nil _ _
            · rw [List.append_assoc, List.singleton_append, ← hdrop, List.takeWhile_append_dropWhile]
          · cases h
  · rintro ⟨marker, hmarker, rfl⟩
    cases hmarker with
    | @bullet c hc => exact if_pos (List.contains_iff_mem.mpr hc)
    | @number digits d hne hdigits hd =>
      obtain ⟨c, cs, rfl⟩ := List.exists_cons_of_ne_nil hne
      have hc := hdigits c List.mem_cons_self
      have hbullet : ¬['-', '*', '•'].contains c = true := fun h => by
        have := List.contains_iff_mem.mp h
        rw [not_decimal (by simp at this ⊢; tauto)] at hc
        cases hc
      have hdrop : ((c :: cs) ++ (d :: rest)).dropWhile isDecimal = d :: rest := by
        rw [List.dropWhile_append_of_pos hdigits, List.dropWhile_cons_of_neg]
        rw [not_decimal (by simp at hd ⊢; tauto)]
        exact Bool.false_ne_true
      rw [List.append_assoc, List.singleton_append, List.cons_append, afterMarker, if_neg hbullet, ← List.cons_append, hdrop]
      simp [hc, hd]

end Marker

/-! ### The query of a line -/

/-- The query that a line is meant to be: its text, without a marker that white space separates from it. -/
def Intends (line query : List Char) : Prop :=
  (∃ marker rest, ListMarker marker ∧ strip line = marker ++ rest ∧ (∀ c ∈ rest.head?, isSpace c = true) ∧
    query = (strip rest).take MAX_QUERY_CHARS) ∨
  ((∀ marker rest, ListMarker marker → strip line = marker ++ rest → ∃ c ∈ rest.head?, isSpace c = false) ∧
    query = (strip line).take MAX_QUERY_CHARS)

/-- The text of the line begins with a marker with no white space behind it, and is not the same without it as far as a query
    goes. -/
def Glued (line : List Char) : Prop :=
  ∃ marker c rest, ListMarker marker ∧ strip line = marker ++ c :: rest ∧ isSpace c = false ∧
    (c :: rest).take MAX_QUERY_CHARS ≠ (strip line).take MAX_QUERY_CHARS

section Line
variable {line rest : List Char} {c : Char}

/-- The marker of a line is that of its text. -/
theorem dropMarker_eq (hne : strip line ≠ []) : strip (dropMarker line) =
    match afterMarker (strip line) with
    | some rest => strip rest
    | none => strip line := by
  obtain ⟨sp, hsplit, hsp⟩ := @dropWhile_eq_strip_append line
  rw [dropMarker, hsplit, afterMarker_append hne hsp]
  cases afterMarker (strip line) with
  | none => rfl
  | some rest =>
    show strip ((rest ++ sp).dropWhile isSpace) = strip rest
    rw [strip_dropWhile, strip_append_spaces hsp]

/-- A line begins with one marker at most. -/
theorem rest_unique {marker rest' : List Char} (h : afterMarker (strip line) = some rest) (hmarker : ListMarker marker)
    (hline : strip line = marker ++ rest') : rest' = rest :=
  Option.some.inj ((afterMarker_iff.mpr ⟨marker, hmarker, hline⟩).symm.trans h)

theorem glued_iff : Glued line ↔ ∃ c rest, afterMarker (strip line) = some (c :: rest) ∧ isSpace c = false ∧
    (c :: rest).take MAX_QUERY_CHARS ≠ (strip line).take MAX_QUERY_CHARS := by
  constructor
  · rintro ⟨marker, c, rest, hmarker, hline, hc, hdiff⟩
    exact ⟨c, rest, afterMarker_iff.mpr ⟨marker, hmarker, hline⟩, hc, hdiff⟩
  · rintro ⟨c, rest, hafter, hc, hdiff⟩
    obtain ⟨marker, hmarker, hline⟩ := afterMarker_iff.mp hafter
    exact ⟨marker, c, rest, hmarker, hline, hc, hdiff⟩

theorem lineQuery_iff (hne : strip line ≠ []) : Intends line (lineQuery line) ↔ ¬Glued line := by
  rw [lineQuery, dropMarker_eq hne, glued_iff]
  cases hafter : afterMarker (strip line) with
  | none =>
    refine iff_of_true (.inr ⟨fun marker rest hmarker hline => ?_, rfl⟩) ?_
    · cases hafter.symm.trans (afterMarker_iff.mpr ⟨marker, hmarker, hline⟩)
    · rintro ⟨c, rest, h, -⟩
      cases h
  | some rest =>
    obtain ⟨marker, hmarker, hline⟩ := afterMarker_iff.mp hafter
    by_cases hspace : ∀ c ∈ rest.head?, isSpace c = true
    · refine iff_of_true (.inl ⟨marker, rest, hmarker, hline, hspace, rfl⟩) ?_
      rintro ⟨c, rest', h, hc, -⟩
      cases h
      rw [hspace c rfl] at hc
      cases hc
    · -- a text follows the marker at once: the line is meant to stay as it is
      obtain ⟨c, rest, rfl⟩ : ∃ c rest', rest = c :: rest' := List.exists_cons_of_ne_nil fun hnil => hspace (by simp [hnil])
      have hc : isSpace c = false := by simpa using hspace
      have hstrip : strip (c :: rest) = c :: rest := strip_eq_self (by simpa using hc) (getLast_afterMarker hafter)
      dsimp only
      rw [hstrip]
      constructor
      · rintro (⟨marker', rest', hmarker', hline', hspace', -⟩ | ⟨-, hquery⟩) ⟨d, rest', h, -, hdiff⟩
        · obtain rfl := rest_unique hafter hmarker' hline'
          exact hspace hspace'
        · cases h
          exact hdiff hquery
      · intro h
        refine .inr ⟨fun marker' rest' hmarker' hline' => ?_, ?_⟩
        · obtain rfl := rest_unique hafter hmarker' hline'
          exact ⟨c, rfl, hc⟩
        · by_contra hdiff
          exact h ⟨c, rest, rfl, hc, hdiff⟩

end Line

/-! ### The list of searches -/

section Queries
variable {α : Type} [BEq α] {reply : String} {n : Nat} {q : String}

theorem eraseDups_sublist : ∀ l : List α, l.eraseDups.Sublist l
  | [] => .slnil
  | a :: l => by
    rw [List.eraseDups_cons]
    exact ((eraseDups_sublist _).trans List.filter_sublist).cons_cons a
termination_by l => l.length
decreasing_by exact Nat.lt_succ_of_le (List.length_filter_le _ _)

theorem nodup_eraseDups [LawfulBEq α] : ∀ l : List α, l.eraseDups.Nodup
  | [] => List.nodup_nil
  | a :: l => by
    rw [List.eraseDups_cons]
    refine List.nodup_cons.mpr ⟨fun ha => ?_, nodup_eraseDups _⟩
    have := (List.mem_filter.mp (List.mem_eraseDups.mp ha)).2
    simp at this
termination_by l => l.length
decreasing_by exact Nat.lt_succ_of_le (List.length_filter_le _ _)

/-- The lines of a reply that are not blank. -/
def linesOfReply (reply : String) : List (List Char) := (splitlines reply).filter fun line => !(strip line).isEmpty

theorem mem_linesOfReply {line : List Char} : line ∈ linesOfReply reply ↔ line ∈ splitlines reply ∧ strip line ≠ [] := by
  rw [linesOfReply, List.mem_filter, Bool.not_eq_true', List.isEmpty_eq_false_iff]

/-- The queries of the lines of a reply, without repetitions. -/
def queriesOf (reply : String) : List (List Char) := ((linesOfReply reply).map lineQuery).eraseDups.filter fun q => !q.isEmpty

theorem planQueries_eq : planQueries reply n = ((queriesOf reply).take n).map .ofList := rfl

theorem mem_queriesOf {q : List Char} : q ∈ queriesOf reply ↔ (∃ line ∈ linesOfReply reply, lineQuery line = q) ∧ q ≠ [] := by
  rw [queriesOf, List.mem_filter, List.mem_eraseDups, List.mem_map, Bool.not_eq_true', List.isEmpty_eq_false_iff]

theorem length_lineQuery {line : List Char} : (lineQuery line).length ≤ MAX_QUERY_CHARS := List.length_take_le _ _

end Queries

/-- The searches are what the reply asks for: up to `maxSearches` distinct queries of its lines, in their order, or the
    question. -/
structure Planned (reply question : String) (maxSearches : Nat) (searches : List String) : Prop where
  nonempty : searches ≠ []
  few : searches.length ≤ maxSearches
  distinct : searches.Nodup
  ordered : (∀ line ∈ linesOfReply reply, lineQuery line = []) ∧ searches = [question] ∨
    (searches.map String.toList).Sublist ((linesOfReply reply).map lineQuery) ∧ ∀ q ∈ searches, q.toList ≠ [] ∧ q.length ≤ MAX_QUERY_CHARS
  taken : ∀ line ∈ linesOfReply reply, lineQuery line ≠ [] → .ofList (lineQuery line) ∈ searches ∨ searches.length = maxSearches

/-- The query of each line is what it is meant to be, and the searches are such queries, or there is none. -/
structure Intact (reply question : String) (searches : List String) : Prop where
  lines : ∀ line ∈ linesOfReply reply, Intends line (lineQuery line)
  searches : (∀ line ∈ linesOfReply reply, Intends line []) ∧ searches = [question] ∨
    ∀ q ∈ searches, ∃ line ∈ linesOfReply reply, Intends line q.toList

theorem plan_planned {reply question : String} {maxSearches : Nat} (hmax : 1 ≤ maxSearches) : Planned reply question maxSearches
    (if planQueries reply maxSearches = [] then [question] else planQueries reply maxSearches) := by
  have hinj : Function.Injective String.ofList := fun a b h => by
    have := congrArg String.toList h
    rwa [String.toList_ofList, String.toList_ofList] at this
  by_cases hnil : planQueries reply maxSearches = []
  · have hqueries : queriesOf reply = [] := by
      rw [planQueries_eq, List.map_eq_nil_iff, List.take_eq_nil_iff] at hnil
      exact hnil.resolve_left (Nat.pos_iff_ne_zero.mp hmax)
    have hlines : ∀ line ∈ linesOfReply reply, lineQuery line = [] := by
      intro line hline
      by_contra hne
      have := mem_queriesOf.mpr ⟨⟨line, hline, rfl⟩, hne⟩
      rw [hqueries] at this
      cases this
    rw [if_pos hnil]
    exact {
      nonempty := List.cons_ne_nil _ _
      few := hmax
      distinct := List.nodup_singleton _
      ordered := .inl ⟨hlines, rfl⟩
      taken := fun line hline hne => absurd (hlines line hline) hne }
  · rw [if_neg hnil, planQueries_eq] at *
    have hsub : (queriesOf reply).Sublist ((linesOfReply reply).map lineQuery) :=
      List.filter_sublist.trans (eraseDups_sublist _)
    constructor
    case nonempty => exact hnil
    case few =>
      rw [List.length_map]
      exact List.length_take_le _ _
    case distinct =>
      exact List.Nodup.map hinj (((nodup_eraseDups _).sublist List.filter_sublist).sublist (List.take_sublist _ _))
    case ordered =>
      refine .inr ⟨?_, fun q hq => ?_⟩
      · rw [List.map_map, (funext fun _ => String.toList_ofList : String.toList ∘ String.ofList = id), List.map_id]
        exact (List.take_sublist _ _).trans hsub
      · obtain ⟨cs, hcs, rfl⟩ := List.mem_map.mp hq
        obtain ⟨⟨line, -, rfl⟩, hne⟩ := mem_queriesOf.mp (List.mem_of_mem_take hcs)
        rw [String.toList_ofList, String.length_ofList]
        exact ⟨hne, length_lineQuery⟩
    case taken =>
      intro line hline hne
      by_cases hlen : maxSearches ≤ (queriesOf reply).length
      · exact .inr (by rw [List.length_map, List.length_take_of_le hlen])
      · refine .inl (List.mem_map_of_mem ?_)
        rw [List.take_of_length_le (Nat.le_of_not_le hlen)]
        exact mem_queriesOf.mpr ⟨⟨line, hline, rfl⟩, hne⟩

theorem intact_iff {reply question : String} {maxSearches : Nat} {searches : List String}
    (h : Planned reply question maxSearches searches) :
    Intact reply question searches ↔ ∀ line ∈ linesOfReply reply, ¬Glued line := by
  have hlines : (∀ line ∈ linesOfReply reply, Intends line (lineQuery line)) ↔ ∀ line ∈ linesOfReply reply, ¬Glued line :=
    forall₂_congr fun _ hline => lineQuery_iff (mem_linesOfReply.mp hline).2
  refine ⟨fun hintact => hlines.mp hintact.lines, fun hglued => ⟨hlines.mpr hglued, ?_⟩⟩
  rcases h.ordered with ⟨hnone, hquestion⟩ | ⟨hsub, -⟩
  · exact .inl ⟨fun line hline => hnone line hline ▸ hlines.mpr hglued line hline, hquestion⟩
  · refine .inr fun q hq => ?_
    obtain ⟨line, hline, hquery⟩ := List.mem_map.mp (hsub.subset (List.mem_map_of_mem hq))
    exact ⟨line, hline, hquery ▸ hlines.mpr hglued line hline⟩

/-! ### The node -/

section Plan
variable {W : Type} {services : Services W} {s t : Session W} {reply cut : String}

/-- What `plan` makes of a reply. -/
theorem plan_ok
    (h : AgentNodes.ask services .plan (Prompts.planSystem s.research.maxSearches) s.research.question s = (.ok (reply, cut), t)) :
    (AgentNodes.plan services s).2.research.searches =
      if planQueries reply s.research.maxSearches = [] then [s.research.question] else planQueries reply s.research.maxSearches := by
  have htry : ((AgentNodes.ask services .plan (Prompts.planSystem s.research.maxSearches) s.research.question).orElse
      (pure ("", ""))) s = (.ok (reply, cut), t) := by
    rw [Act.orElse, h]
  rw [AgentNodes.plan, Act.state_bind, Act.bind_ok htry]
  rfl

end Plan

/-- A plan has the form that it should have; its queries are intact unless a marker is glued to the text of a line. -/
theorem plan_intact_iff {W : Type} (services : Services W) (s : Session W) {reply cut : String} {t : Session W}
    (hmax : 1 ≤ s.research.maxSearches)
    (hreply : AgentNodes.ask services .plan (Prompts.planSystem s.research.maxSearches) s.research.question s = (.ok (reply, cut), t)) :
    Planned reply s.research.question s.research.maxSearches (AgentNodes.plan services s).2.research.searches ∧
        Intact reply s.research.question (AgentNodes.plan services s).2.research.searches ↔
      ∀ line ∈ linesOfReply reply, ¬Glued line := by
  have hplanned := @plan_planned reply s.research.question _ hmax
  rw [plan_ok hreply, intact_iff hplanned]
  exact and_iff_right hplanned

/-- A model that replies with this text, at no cost. -/
def replying (content : String) : Services Unit where
  complete _ _ _ := (.ok
    { model := "m", content, finishReason := "stop", usage := {}
      nexusgate := { deployment := none, cached := true, costUsd := 0, latencyMs := 0 } }, ())
  search _ _ _ _ _ := (.ok [], ())

/-- A run before its plan. -/
def begun : Session Unit where
  research :=
    { question := "What changed?", principal := { tenantId := "acme", keyId := "k" }, model := "default", topK := 5
      maxSearches := 3, maxRevisions := 1, cache := true }
  world := ()

theorem plan_intact_sev :
    Planned "- SEV1 postmortem" "What changed?" 3 (AgentNodes.plan (replying "- SEV1 postmortem") begun).2.research.searches ∧
      Intact "- SEV1 postmortem" "What changed?" (AgentNodes.plan (replying "- SEV1 postmortem") begun).2.research.searches :=
  (plan_intact_iff (replying "- SEV1 postmortem") begun (by decide) rfl).mpr (by
    intro line hline
    obtain rfl : line = "- SEV1 postmortem".toList := List.mem_singleton.mp hline
    rw [glued_iff]
    rintro ⟨c, rest, h, hc, -⟩
    cases h
    cases hc)

/-- A version number is no list item. -/
theorem glued_version : Glued "3.5 upgrade".toList := glued_iff.mpr ⟨'5', " upgrade".toList, by decide, by decide, by decide⟩

theorem not_plan_intact : ¬∀ (services : Services Unit) (s : Session Unit) (reply cut : String) (t : Session Unit),
    1 ≤ s.research.maxSearches →
    AgentNodes.ask services .plan (Prompts.planSystem s.research.maxSearches) s.research.question s = (.ok (reply, cut), t) →
      Planned reply s.research.question s.research.maxSearches (AgentNodes.plan services s).2.research.searches ∧
        Intact reply s.research.question (AgentNodes.plan services s).2.research.searches := by
  intro h
  obtain ⟨-, hintact⟩ := h (replying "3.5 upgrade") begun "3.5 upgrade" "" _ (by decide) rfl
  exact (lineQuery_iff (by decide)).mp (hintact.lines "3.5 upgrade".toList (by decide)) glued_version

end NexusGate.Agents
