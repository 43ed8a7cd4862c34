import Mathlib.Data.List.Forall2
import Mathlib.Data.List.Induction
import SecureGroup.Journal
import SecureGroup.Proofs.JsonText

/-!
# Journals read back

A record is one line, and the line is read as the same record (`Record.ofLine_toLine`), if its
fields are absent or a value that text keeps.  Its values are found by their names, each with a
reader of its own (`Json.readRecord_object`).

A run adds one line for each event that its filter lets through (`toList_run`), and runs in a row
are one long run.  No line has a break of its own, so the lines of the file are those that were
written: `one_line_for_each_event` reads one record from each, and `Told` says what it tells of the
values that were noted with its event.  It leaves nothing open: an event has one such record
(`Told.unique`).
-/

namespace SecureGroup

/-! ## Objects with known fields -/

namespace Json

theorem exact_ofFields {depth : Nat} {fields : List (String × Json)}
    (h : ∀ f ∈ fields, Exact depth f.2) : Exact (depth + 1) (ofFields fields) := by
  obtain ⟨kept, heq, hsorted, hmem, -⟩ := ofFields_spec fields
  rw [heq]
  exact .object hsorted fun f hf => h f (hmem f hf)

/-- A value whose text some reader takes for that value, whatever follows it. -/
structure ReadBy (read : Reader Json) (v : Json) : Prop where
  begins : Begins (chars v)
  eq : ∀ rest, Stops rest → read (chars v ++ rest) = some (v, rest)

/-- Known fields are read up to the end of their object. -/
theorem namedFields?_fieldChars {reader : String → Option (Reader Json)}
    {fields : List (String × Json)} (hne : fields ≠ [])
    (hread : ∀ f ∈ fields, ∃ read, reader f.1 = some read ∧ ReadBy read f.2)
    (hnames : fields.Pairwise fun a b => a.1 ≠ b.1) {seen : List String}
    (hseen : ∀ f ∈ fields, f.1 ∉ seen) {fuel : Nat} (hfuel : fields.length ≤ fuel)
    (rest : List Char) :
    namedFields? reader fuel seen (fieldChars fields ++ '\x7d' :: rest) = some (fields, rest) := by
  induction fields generalizing seen fuel with
  | nil => exact absurd rfl hne
  | cons f fields ih =>
    rw [List.length_cons] at hfuel
    obtain ⟨fuel, rfl⟩ : ∃ n, fuel = n + 1 := ⟨fuel - 1, by omega⟩
    obtain ⟨read, hreader, hv⟩ := hread f List.mem_cons_self
    have hnew := hseen f List.mem_cons_self
    have hcolon := skipSpace_cons (c := ':') (by decide)
    have hvalue : ∀ tail, Stops tail →
        read (skipSpace (chars f.2 ++ tail)) = some (f.2, tail) := fun tail htail => by
      rw [(hv.begins.append tail).skipSpace_eq, hv.eq tail htail]
    cases fields with
    | nil =>
      have hend := skipSpace_cons (c := '\x7d') (by decide) rest
      rw [fieldChars_singleton, List.append_assoc, List.cons_append, namedFields?]
      simp only [text?_skipSpace_quoted, hcolon, hreader, if_neg hnew, Option.bind_eq_bind,
        Option.bind_some, hvalue _ (stops_cons (c := '\x7d') (by decide) rest), Option.map_some,
        hend, Option.pure_def]
    | cons g fields =>
      obtain ⟨hfirst, hrest⟩ := List.pairwise_cons.1 hnames
      have hothers : ∀ u ∈ g :: fields, u.1 ∉ [f.1] ++ seen := by
        intro u hu hmem
        obtain hmem | hmem := List.mem_append.1 hmem
        · exact hfirst u hu (List.mem_singleton.1 hmem).symm
        · exact hseen u (List.mem_cons_of_mem f hu) hmem
      have hroom : (g :: fields).length ≤ fuel := by omega
      have hfields := ih (List.cons_ne_nil g fields)
        (fun u hu => hread u (List.mem_cons_of_mem f hu)) hrest hothers hroom
      have hcomma := skipSpace_cons (c := ',') (by decide)
        (fieldChars (g :: fields) ++ '\x7d' :: rest)
      rw [fieldChars_cons_cons, List.append_assoc, List.append_assoc, List.cons_append,
        List.cons_append, namedFields?]
      simp only [text?_skipSpace_quoted, hcolon, hreader, if_neg hnew, Option.bind_eq_bind,
        Option.bind_some, hvalue _ (stops_cons (c := ',') (by decide) _), Option.map_some, hcomma,
        List.map_cons, List.map_nil, hfields, Option.pure_def]
      rfl

theorem length_le_length_fieldChars (fields : List (String × Json)) :
    fields.length ≤ (fieldChars fields).length := by
  induction fields with
  | nil => exact Nat.le_refl 0
  | cons f fields ih =>
    cases fields with
    | nil =>
      show 1 ≤ (quoted f.1 ++ ':' :: chars f.2).length
      rw [List.length_append, List.length_cons]
      omega
    | cons g fields =>
      have hlength : (fieldChars (f :: g :: fields)).length = (quoted f.1).length +
          ((chars f.2).length + 1) + ((fieldChars (g :: fields)).length + 1) := by
        rw [fieldChars_cons_cons, List.length_append, List.length_append, List.length_cons,
          List.length_cons]
      rw [List.length_cons, hlength]
      omega

theorem readRecord_object {reader : String → Option (Reader Json)} {fields : List (String × Json)}
    (hne : fields ≠ []) (hread : ∀ f ∈ fields, ∃ read, reader f.1 = some read ∧ ReadBy read f.2)
    (hnames : fields.Pairwise fun a b => a.1 ≠ b.1) (names : List String) :
    readRecord reader names (render (object fields)) = some fields := by
  have hchars : (render (object fields)).toList = '\x7b' :: (fieldChars fields ++ ['\x7d']) := by
    rw [render, String.toList_ofList, chars_object]
  have hbegins := (begins_fieldChars hne).append ['\x7d']
  have hlength := length_le_length_fieldChars fields
  have hunseen : ∀ f ∈ fields, f.1 ∉ ([] : List String) := fun _ _ => List.not_mem_nil
  have hroom : fields.length ≤ (fieldChars fields ++ ['\x7d']).length + 1 := by
    rw [List.length_append]
    omega
  have hfields := namedFields?_fieldChars hne hread hnames hunseen hroom []
  rw [readRecord, hchars, skipSpace_cons (by decide)]
  split
  · next cs hopen =>
    obtain ⟨-, rfl⟩ := List.cons.inj hopen
    rw [hbegins.skipSpace_eq]
    obtain ⟨c, tail, heq, -, -, hc⟩ := hbegins
    rw [heq] at hfields ⊢
    split
    · next hbrace =>
      cases hbrace
      exact absurd rfl hc
    · rw [hfields]
      rfl
  · next hopen => exact absurd (List.cons.inj hopen).1 (by decide)
  · next hother _ => exact absurd rfl (hother (fieldChars fields ++ ['\x7d']))

end Json

namespace Journal

/-! ## Records -/

/-- What a journal can keep of the fields of a record: there are none, or their value is one that
text keeps and not `null`; the record around them is one level of the depth. -/
def Record.Keepable (r : Record) : Prop :=
  ∀ v ∈ r.fields, v ≠ .null ∧ v.Exact (Json.maxDepth - 1)

namespace Record

theorem readBy_readText (s : String) : Json.ReadBy readText (.string s) := by
  refine ⟨Json.begins_quoted s, fun rest _ => ?_⟩
  show (Json.text? (Json.quoted s ++ rest)).map _ = _
  rw [Json.text?_quoted, Option.map_some]

theorem readBy_readOptionalText (s : String) : Json.ReadBy readOptionalText (.string s) :=
  ⟨Json.begins_quoted s, fun rest hrest => (readBy_readText s).eq rest hrest⟩

theorem readBy_readAny {v : Json} (h : v.Exact (Json.maxDepth - 1)) : Json.ReadBy readAny v := by
  refine ⟨h.begins, fun rest hrest => h.reads _ rest ?_ hrest⟩
  rw [Json.fuelFor, List.length_append]
  omega

/-- A value of a record is a text, or its fields, or its spans. -/
theorem cases_of_mem_values {r : Record} {f : String × Json} (h : f ∈ r.values) :
    (reader f.1 = some readText ∧ ∃ s, f.2 = .string s) ∨
      (reader f.1 = some readAny ∧ f.2 ∈ r.fields) ∨
      (reader f.1 = some readOptionalText ∧ ∃ s, f.2 = .string s) := by
  rw [values, List.mem_append, List.mem_append] at h
  obtain (h | h) | h := h
  · simp only [List.mem_cons, List.not_mem_nil, or_false] at h
    have hname : f.1 ∈ names ∧ f.1 ≠ "fields" ∧ f.1 ≠ "span" := by
      obtain rfl | rfl | rfl | rfl | rfl := h
      all_goals
        dsimp only
        decide
    have hreader : reader f.1 = some readText := by
      rw [reader, if_neg hname.2.1, if_neg hname.2.2, if_pos hname.1]
    refine Or.inl ⟨hreader, ?_⟩
    obtain rfl | rfl | rfl | rfl | rfl := h
    all_goals exact ⟨_, rfl⟩
  · obtain ⟨v, hv, rfl⟩ := Option.map_eq_some_iff.1 (Option.mem_toList.1 h)
    exact Or.inr (Or.inl ⟨rfl, hv⟩)
  · obtain ⟨s, -, rfl⟩ := Option.map_eq_some_iff.1 (Option.mem_toList.1 h)
    exact Or.inr (Or.inr ⟨rfl, s, rfl⟩)

theorem readBy_of_mem_values {r : Record} (h : r.Keepable) :
    ∀ f ∈ r.values, ∃ read, reader f.1 = some read ∧ Json.ReadBy read f.2 := by
  intro f hf
  obtain ⟨hreader, s, hs⟩ | ⟨hreader, hv⟩ | ⟨hreader, s, hs⟩ := cases_of_mem_values hf
  · exact ⟨readText, hreader, by rw [hs]; exact readBy_readText s⟩
  · exact ⟨readAny, hreader, readBy_readAny (h f.2 hv).2⟩
  · exact ⟨readOptionalText, hreader, by rw [hs]; exact readBy_readOptionalText s⟩

theorem pairwise_values (r : Record) : r.values.Pairwise fun a b => a.1 ≠ b.1 := by
  obtain ⟨time, level, replica, target, message, fields, span⟩ := r
  cases fields <;> cases span <;> simp [values]

theorem values_ne_nil (r : Record) : r.values ≠ [] := List.cons_ne_nil _ _

/-- The values of a record make up the record. -/
theorem ofValues_values {r : Record} (h : r.Keepable) : ofValues r.values = .ok r := by
  obtain ⟨time, level, replica, target, message, fields, span⟩ := r
  cases fields with
  | none => cases span <;> rfl
  | some v =>
    have hnull := (h v rfl).1
    cases v with
    | null => exact absurd rfl hnull
    | _ => cases span <;> rfl

theorem oneLine_toLine {r : Record} (h : r.Keepable) : Json.OneLine r.toLine.toList := by
  rw [toLine, Json.render, String.toList_ofList]
  refine Json.oneLine_object fun f hf => ?_
  obtain ⟨-, s, hs⟩ | ⟨-, hv⟩ | ⟨-, s, hs⟩ := cases_of_mem_values hf
  · rw [hs]
    exact Json.oneLine_quoted s
  · exact (h f.2 hv).2.oneLine
  · rw [hs]
    exact Json.oneLine_quoted s

theorem no_break {r : Record} (h : r.Keepable) : ∀ c ∈ r.toLine.toList, c ≠ '\n' ∧ c ≠ '\r' := by
  intro c hc
  have hcontrol := oneLine_toLine h c hc
  refine ⟨?_, ?_⟩
  · rintro rfl
    exact absurd hcontrol (by decide)
  · rintro rfl
    exact absurd hcontrol (by decide)

theorem ofLine_toLine {r : Record} (h : r.Keepable) : ofLine r.toLine = .ok r := by
  have hread : Json.readRecord reader names r.toLine = some r.values :=
    Json.readRecord_object r.values_ne_nil (readBy_of_mem_values h) r.pairwise_values names
  have harray : isArray r.toLine = false := by
    rw [isArray, toLine, Json.render, String.toList_ofList, toJson, Json.chars_object]
    rfl
  rw [ofLine, hread]
  simp only [harray, Bool.false_eq_true, false_and, if_false]
  exact ofValues_values h

end Record

end Journal

/-! ## Lines -/

namespace Text

/-- A line without breaks of its own ends at the line feed behind it. -/
theorem lineChars_append {cs : List Char} (h : ∀ c ∈ cs, c ≠ '\n' ∧ c ≠ '\r') (rest : List Char) :
    lineChars (cs ++ '\n' :: rest) = cs :: lineChars rest := by
  induction cs with
  | nil => rfl
  | cons c cs ih =>
    obtain ⟨hfeed, hreturn⟩ := h c List.mem_cons_self
    have hline := ih fun d hd => h d (List.mem_cons_of_mem c hd)
    rw [List.cons_append, lineChars.eq_4 _ _ hfeed (fun _ hc _ => hreturn hc), hline]

theorem lineChars_flatMap {lines : List (List Char)}
    (h : ∀ line ∈ lines, ∀ c ∈ line, c ≠ '\n' ∧ c ≠ '\r') :
    lineChars (lines.flatMap fun line => line ++ ['\n']) = lines := by
  induction lines with
  | nil => rfl
  | cons line lines ih =>
    rw [List.flatMap_cons, List.append_assoc, List.singleton_append,
      lineChars_append (h line List.mem_cons_self),
      ih fun l hl => h l (List.mem_cons_of_mem line hl)]

end Text

namespace Journal

/-! ## Events -/

/-- What a journal can keep of a value: an integer has 64 bits, and a real number is not finite, so
that it leaves nothing. -/
def FieldValue.Keepable : FieldValue → Prop
  | .integer n => Json.Fits n
  | .real f => f.isFinite = false
  | _ => True

/-- An event whose values a journal can keep. -/
def Event.Keepable (e : Event) : Prop := ∀ value ∈ e.values, value.2.Keepable

theorem FieldValue.Keepable.exact {value : FieldValue} (h : value.Keepable) {v : Json}
    (hv : value.toJson? = some v) (depth : Nat) : v.Exact depth := by
  cases value with
  | text s => exact Option.some.inj hv ▸ .string s
  | failure s => exact Option.some.inj hv ▸ .string s
  | integer n => exact Option.some.inj hv ▸ .int h
  | truth b => exact Option.some.inj hv ▸ .bool b
  | real f =>
    have hfinite : f.isFinite = false := h
    rw [FieldValue.toJson?, hfinite] at hv
    cases hv

theorem Event.Keepable.exact_fields {e : Event} (h : e.Keepable) (depth : Nat) :
    ∀ f ∈ e.fields, f.2.Exact depth := by
  intro f hf
  obtain ⟨value, hvalue, hfield⟩ := List.mem_filterMap.1 hf
  rw [field?] at hfield
  split at hfield
  · cases hfield
  · obtain ⟨v, hv, rfl⟩ := Option.map_eq_some_iff.1 hfield
    exact (h value hvalue).exact hv depth

theorem Event.fields_record (filter : Filter) (replica : String) (e : Event) :
    (e.record filter replica).fields =
      if e.fields = [] then none else some (Json.ofFields e.fields) := by
  simp only [Event.record, List.isEmpty_iff]

theorem Event.span_record (filter : Filter) (replica : String) (e : Event) :
    (e.record filter replica).span = if e.spanNames filter = [] then none
      else some (" > ".intercalate (e.spanNames filter)) := by
  simp only [Event.record, List.isEmpty_iff]

theorem Event.Keepable.record {e : Event} (h : e.Keepable) (filter : Filter) (replica : String) :
    (e.record filter replica).Keepable := by
  intro v hv
  rw [e.fields_record filter replica] at hv
  split at hv
  · cases hv
  · rw [← Option.some.inj hv]
    exact ⟨nofun, Json.exact_ofFields (h.exact_fields 125)⟩

/-- The last of some values that stands in a relation to anything stands in it to `y`. -/
def LastOf {α β : Type} (rel : α → β → Prop) (xs : List α) (y : β) : Prop :=
  ∃ before x after, xs = before ++ x :: after ∧ rel x y ∧ ∀ z ∈ after, ∀ y', ¬ rel z y'

/-- A value that is noted with an event is its message: a text under this name. -/
inductive MessageOf : String × FieldValue → String → Prop where
  | text (s : String) : MessageOf ("message", .text s) s

/-- A value that is noted with an event is the field of a name, and has this JSON value.  A text
under the name of the message is none, and neither is a number without a JSON form. -/
inductive FieldOf (name : String) : String × FieldValue → Json → Prop where
  | text (s : String) (hname : name ≠ "message") : FieldOf name (name, .text s) (.string s)
  | failure (s : String) : FieldOf name (name, .failure s) (.string s)
  | integer (n : Int) : FieldOf name (name, .integer n) (.number (.integer n))
  | truth (b : Bool) : FieldOf name (name, .truth b) (.bool b)
  | real (f : Float) (hfinite : f.isFinite = true) :
      FieldOf name (name, .real f) (.number (.float f))

/-- What a record tells of an event: its message is the last text that was noted as one, its fields
are the other values in the order of their names, the last one of a name counting, or nothing if
there are none, and its span names those around the event that the filter lets through, from the
outermost on. -/
structure Told (filter : Filter) (replica : String) (e : Event) (r : Record) : Prop where
  time : r.time = e.time.toText
  level : (e.level, r.level) ∈ [(.error, "error"), (.warn, "warn"), (.info, "info"),
    (.debug, "debug"), (.trace, "trace")]
  replica : r.replica = replica
  target : r.target = e.target
  message : LastOf MessageOf e.values r.message ∨
    r.message = "" ∧ ∀ value ∈ e.values, ∀ s, ¬ MessageOf value s
  no_fields : r.fields = none ↔ ∀ value ∈ e.values, ∀ name v, ¬ FieldOf name value v
  fields : ∀ v ∈ r.fields, ∃ kept, v = .object kept ∧ Json.Sorted kept ∧
    ∀ name w, kept.lookup name = some w ↔ LastOf (FieldOf name) e.values w
  span :
    let names := (e.spans.filter fun s => filter.allows s.target s.level).map (·.name)
    r.span = if names = [] then none else some (" > ".intercalate names)

section LastOf

variable {α β : Type} {rel : α → β → Prop} {xs : List α} {x : α} {y y' : β}

theorem not_lastOf_nil : ¬ LastOf rel [] y := by
  rintro ⟨before, x, after, hsplit, -⟩
  cases before <;> cases hsplit

/-- One more value is the last one of its kind, or is of another kind. -/
theorem lastOf_concat :
    LastOf rel (xs ++ [x]) y ↔ rel x y ∨ (∀ y', ¬ rel x y') ∧ LastOf rel xs y := by
  constructor
  · rintro ⟨before, z, after, hsplit, hrel, hafter⟩
    obtain rfl | ⟨after, last, rfl⟩ := List.eq_nil_or_concat' after
    · obtain ⟨-, hlast⟩ := List.append_inj' hsplit rfl
      rw [List.head_eq_of_cons_eq hlast]
      exact Or.inl hrel
    · rw [← List.cons_append, ← List.append_assoc] at hsplit
      obtain ⟨rfl, hlast⟩ := List.append_inj' hsplit rfl
      rw [List.head_eq_of_cons_eq hlast]
      have hrest : ∀ u ∈ after, ∀ y', ¬ rel u y' := fun u hu =>
        hafter u (List.mem_append_left _ hu)
      exact Or.inr ⟨hafter last (by simp), before, z, after, rfl, hrel, hrest⟩
  · rintro (hrel | ⟨hnot, before, z, after, rfl, hrel, hafter⟩)
    · exact ⟨xs, x, [], rfl, hrel, nofun⟩
    · refine ⟨before, z, after ++ [x], by simp, hrel, fun u hu => ?_⟩
      obtain hu | hu := List.mem_append.1 hu
      · exact hafter u hu
      · rw [List.mem_singleton.1 hu]
        exact hnot

theorem LastOf.exists_mem (h : LastOf rel xs y) : ∃ x ∈ xs, rel x y := by
  obtain ⟨before, x, after, rfl, hrel, -⟩ := h
  exact ⟨x, by simp, hrel⟩

theorem LastOf.unique (hrel : ∀ x y y', rel x y → rel x y' → y = y') (h : LastOf rel xs y)
    (h' : LastOf rel xs y') : y = y' := by
  induction xs using List.reverseRecOn with
  | nil => exact absurd h not_lastOf_nil
  | append_singleton xs x ih =>
    obtain hx | ⟨hnot, h⟩ := lastOf_concat.1 h
    · obtain hx' | ⟨hnot, -⟩ := lastOf_concat.1 h'
      · exact hrel x y y' hx hx'
      · exact absurd hx (hnot y)
    · obtain hx' | ⟨-, h'⟩ := lastOf_concat.1 h'
      · exact absurd hx' (hnot y')
      · exact ih h h'

end LastOf

theorem messageOf_iff {value : String × FieldValue} {s : String} :
    MessageOf value s ↔ message? value = some s := by
  obtain ⟨name, v⟩ := value
  constructor
  · rintro ⟨⟩
    rfl
  · intro h
    cases v with
    | text t =>
      rw [message?, Option.ite_none_right_eq_some, Option.some.injEq] at h
      obtain ⟨rfl, rfl⟩ := h
      exact .text t
    | failure | integer | truth | real => cases h

theorem fieldOf_iff {name : String} {value : String × FieldValue} {v : Json} :
    FieldOf name value v ↔ field? value = some (name, v) := by
  constructor
  · intro h
    cases h with
    | text s hname => simp [field?, message?, messageName, hname, FieldValue.toJson?]
    | real f hfinite => simp [field?, message?, FieldValue.toJson?, hfinite]
    | failure | integer | truth => rfl
  · intro h
    obtain ⟨n, w⟩ := value
    cases w with
    | text s =>
      by_cases hname : n = messageName
      · simp [field?, message?, hname] at h
      · simp only [field?, message?, if_neg hname, FieldValue.toJson?, Option.isSome_none,
          Bool.false_eq_true, if_false, Option.map_some, Option.some.injEq, Prod.mk.injEq] at h
        obtain ⟨rfl, rfl⟩ := h
        exact .text s hname
    | failure s =>
      obtain ⟨rfl, rfl⟩ := Prod.mk.inj (Option.some.inj h)
      exact .failure s
    | integer k =>
      obtain ⟨rfl, rfl⟩ := Prod.mk.inj (Option.some.inj h)
      exact .integer k
    | truth b =>
      obtain ⟨rfl, rfl⟩ := Prod.mk.inj (Option.some.inj h)
      exact .truth b
    | real f =>
      obtain ⟨j, hj, heq⟩ := Option.map_eq_some_iff.1 h
      rw [FieldValue.toJson?, Option.ite_none_right_eq_some] at hj
      obtain ⟨hfinite, hj⟩ := hj
      obtain ⟨rfl, rfl⟩ := Prod.mk.inj heq
      rw [← Option.some.inj hj]
      exact .real f hfinite

theorem MessageOf.unique (value : String × FieldValue) (s s' : String) (h : MessageOf value s)
    (h' : MessageOf value s') : s = s' :=
  Option.some.inj ((messageOf_iff.1 h).symm.trans (messageOf_iff.1 h'))

theorem FieldOf.unique {name : String} (value : String × FieldValue) (v v' : Json)
    (h : FieldOf name value v) (h' : FieldOf name value v') : v = v' :=
  (Prod.mk.inj (Option.some.inj ((fieldOf_iff.1 h).symm.trans (fieldOf_iff.1 h')))).2

/-- The message of an event is the last one of its messages. -/
theorem Event.lastOf_message (e : Event) : LastOf MessageOf e.values e.message ∨
    e.message = "" ∧ ∀ value ∈ e.values, ∀ s, ¬ MessageOf value s := by
  rw [message]
  induction e.values using List.reverseRecOn with
  | nil => exact Or.inr ⟨rfl, nofun⟩
  | append_singleton values value ih =>
    cases hvalue : message? value with
    | some s =>
      have hlast : ((values ++ [value]).filterMap message?).getLast?.getD "" = s := by
        simp [hvalue]
      rw [hlast]
      exact Or.inl (lastOf_concat.2 (Or.inl (messageOf_iff.2 hvalue)))
    | none =>
      have hnot : ∀ s, ¬ MessageOf value s := fun s hs => by
        rw [messageOf_iff, hvalue] at hs
        cases hs
      have hsame : (values ++ [value]).filterMap message? = values.filterMap message? := by
        simp [hvalue]
      rw [hsame]
      obtain hlast | ⟨hempty, hnone⟩ := ih
      · exact Or.inl (lastOf_concat.2 (Or.inr ⟨hnot, hlast⟩))
      · refine Or.inr ⟨hempty, fun u hu => ?_⟩
        obtain hu | hu := List.mem_append.1 hu
        · exact hnone u hu
        · rw [List.mem_singleton.1 hu]
          exact hnot

theorem Event.fields_eq_nil_iff (e : Event) :
    e.fields = [] ↔ ∀ value ∈ e.values, ∀ name v, ¬ FieldOf name value v := by
  rw [fields, List.filterMap_eq_nil_iff]
  refine forall₂_congr fun value _ => ?_
  simp only [fieldOf_iff, Option.eq_none_iff_forall_ne_some, Prod.forall]

/-- What is found under a name among the fields of an event is the last value of that name. -/
theorem Event.lookup_fields_iff (e : Event) (name : String) (v : Json) :
    e.fields.reverse.lookup name = some v ↔ LastOf (FieldOf name) e.values v := by
  rw [fields]
  induction e.values using List.reverseRecOn with
  | nil => exact iff_of_false nofun not_lastOf_nil
  | append_singleton values value ih =>
    rw [List.filterMap_append, List.reverse_append, lastOf_concat, ← ih]
    simp only [fieldOf_iff]
    cases hvalue : field? value with
    | none => simp [hvalue]
    | some f =>
      rw [List.filterMap_cons_some hvalue, List.filterMap_nil, List.reverse_singleton,
        List.singleton_append, Json.lookup_cons_eq_ite f.1 f.2]
      by_cases hname : name = f.1
      · simp [hname, Prod.ext_iff]
      · simp [hname, Prod.ext_iff, Ne.symm hname]

theorem Event.told_record (filter : Filter) (replica : String) (e : Event) :
    Told filter replica e (e.record filter replica) := by
  have hfields := e.fields_record filter replica
  have hlevel : (e.level, e.level.name) ∈ [(Level.error, "error"), (.warn, "warn"),
      (.info, "info"), (.debug, "debug"), (.trace, "trace")] := by
    cases e.level <;> decide
  refine ⟨rfl, hlevel, rfl, rfl, e.lastOf_message, ?_, fun v hv => ?_, e.span_record filter replica⟩
  · rw [hfields, ← e.fields_eq_nil_iff, ite_eq_left_iff]
    simp
  · rw [hfields] at hv
    split at hv
    · cases hv
    · obtain ⟨kept, heq, hsorted, -, hlookup⟩ := Json.ofFields_spec e.fields
      refine ⟨kept, (Option.some.inj hv).symm.trans heq, hsorted, fun name w => ?_⟩
      rw [hlookup, e.lookup_fields_iff]

/-- There is one record that tells all of an event. -/
theorem Told.unique {filter : Filter} {replica : String} {e : Event} {r r' : Record}
    (h : Told filter replica e r) (h' : Told filter replica e r') : r = r' := by
  have htime : r.time = r'.time := h.time.trans h'.time.symm
  have hlevel : r.level = r'.level := by
    have hr := h.level
    have hr' := h'.level
    cases hl : e.level <;> simp_all
  have hreplica : r.replica = r'.replica := h.replica.trans h'.replica.symm
  have htarget : r.target = r'.target := h.target.trans h'.target.symm
  have hmessage : r.message = r'.message := by
    obtain hlast | ⟨hempty, hnone⟩ := h.message
    · obtain hlast' | ⟨-, hnone⟩ := h'.message
      · exact hlast.unique MessageOf.unique hlast'
      · obtain ⟨value, hvalue, hmessage⟩ := hlast.exists_mem
        exact absurd hmessage (hnone value hvalue _)
    · obtain hlast' | ⟨hempty', -⟩ := h'.message
      · obtain ⟨value, hvalue, hmessage⟩ := hlast'.exists_mem
        exact absurd hmessage (hnone value hvalue _)
      · rw [hempty, hempty']
  have hfields : r.fields = r'.fields := by
    cases hv : r.fields with
    | none => exact (h'.no_fields.2 (h.no_fields.1 hv)).symm
    | some v =>
      cases hv' : r'.fields with
      | none => rw [h.no_fields.2 (h'.no_fields.1 hv')] at hv; cases hv
      | some v' =>
        obtain ⟨kept, rfl, hsorted, hlookup⟩ := h.fields v hv
        obtain ⟨kept', rfl, hsorted', hlookup'⟩ := h'.fields v' hv'
        have hkept : kept = kept' := hsorted.eq_of_lookup hsorted' fun name =>
          Option.ext fun w => (hlookup name w).trans (hlookup' name w).symm
        rw [hkept]
  have hspan : r.span = r'.span := h.span.trans h'.span.symm
  obtain ⟨time, level, name, target, message, fields, span⟩ := r
  dsimp only at htime hlevel hreplica htarget hmessage hfields hspan
  rw [htime, hlevel, hreplica, htarget, hmessage, hfields, hspan]

/-! ## Runs -/

def Filter.heard (filter : Filter) (events : List Event) : List Event :=
  events.filter fun e => filter.allows e.target e.level

/-- A run adds the lines of the events that its filter lets through, in their order. -/
theorem toList_run (filter : Filter) (replica text : String) (events : List Event) :
    (run filter replica text events).toList = text.toList ++
      ((filter.heard events).map fun e => (e.record filter replica).toLine.toList).flatMap
        fun line => line ++ ['\n'] := by
  induction events generalizing text with
  | nil => exact (List.append_nil _).symm
  | cons e events ih =>
    have hstep : run filter replica text (e :: events) =
      run filter replica (write filter replica text e) events := rfl
    rw [hstep, ih, write]
    by_cases h : filter.allows e.target e.level = true
    · have hheard : filter.heard (e :: events) = e :: filter.heard events :=
        List.filter_cons_of_pos h
      rw [if_pos h, hheard, String.toList_append, String.toList_append, List.map_cons,
        List.flatMap_cons, List.append_assoc, List.append_assoc, List.append_assoc]
      rfl
    · have hheard : filter.heard (e :: events) = filter.heard events := List.filter_cons_of_neg h
      rw [if_neg h, hheard]

theorem foldl_run (filter : Filter) (replica : String) (batches : List (List Event)) :
    batches.foldl (run filter replica) "" = run filter replica "" batches.flatten :=
  List.foldl_flatten.symm

theorem lines_run {filter : Filter} {replica : String} {events : List Event}
    (h : ∀ e ∈ events, e.Keepable) : Text.lines (run filter replica "" events) =
      (filter.heard events).map fun e => (e.record filter replica).toLine := by
  have hchars : (run filter replica "" events).toList =
      ((filter.heard events).map fun e => (e.record filter replica).toLine.toList).flatMap
        fun line => line ++ ['\n'] := toList_run filter replica "" events
  have hbreaks :
      ∀ line ∈ (filter.heard events).map fun e => (e.record filter replica).toLine.toList,
        ∀ c ∈ line, c ≠ '\n' ∧ c ≠ '\r' := by
    intro line hline
    obtain ⟨e, he, rfl⟩ := List.mem_map.1 hline
    have hkeep := (h e (List.mem_filter.1 he).1).record filter replica
    exact Record.no_break hkeep
  rw [Text.lines, hchars, Text.lineChars_flatMap hbreaks, List.map_map]
  refine List.map_congr_left fun e _ => ?_
  rw [Function.comp_apply, String.ofList_toList]

theorem records_run {filter : Filter} {replica : String} {events : List Event}
    (h : ∀ e ∈ events, e.Keepable) : records (run filter replica "" events) =
      (filter.heard events).map fun e => .ok (e.record filter replica) := by
  rw [records, lines_run h, List.map_map]
  refine List.map_congr_left fun e he => ?_
  have hkeep := (h e (List.mem_filter.1 he).1).record filter replica
  rw [Function.comp_apply, Record.ofLine_toLine hkeep]

/-- Every record whose fields a journal can keep is one line and reads back with all its values.
So after any runs of a replica in a row its file has one line for each event that came through, in
their order, and each line is read as a record that tells all of its event. -/
theorem one_line_for_each_event :
    (∀ r : Record, r.Keepable →
      (∀ c ∈ r.toLine.toList, c ≠ '\n' ∧ c ≠ '\r') ∧ Record.ofLine r.toLine = .ok r) ∧
    ∀ (filter : Filter) (directoryIsFile : Bool) (now : Timestamp) (replica file : String)
      (batches : List (List Event)), openFile directoryIsFile now replica = .ok file →
      (∀ events ∈ batches, ∀ e ∈ events, e.Keepable) →
      ∃ text, runs filter directoryIsFile now replica batches = .ok (file, text) ∧
        List.Forall₂ (fun e read => ∃ r, read = .ok r ∧ Told filter replica e r)
          (filter.heard batches.flatten) (records text) := by
  refine ⟨fun r h => ⟨Record.no_break h, Record.ofLine_toLine h⟩, ?_⟩
  intro filter directoryIsFile now replica file batches hopen hkeep
  have hevents : ∀ e ∈ batches.flatten, e.Keepable := by
    intro e he
    obtain ⟨events, hevents, he⟩ := List.mem_flatten.1 he
    exact hkeep events hevents e he
  refine ⟨run filter replica "" batches.flatten, ?_, ?_⟩
  · rw [runs, hopen, foldl_run]
    rfl
  · rw [records_run hevents, List.forall₂_map_right_iff, List.forall₂_same]
    exact fun e _ => ⟨e.record filter replica, rfl, e.told_record filter replica⟩

/-- A record with quotation marks, backslashes and line breaks in its message and in the names of
its fields, and two runs into one file.  The first event notes two messages, a field twice, and an
error under the name of the message. -/
theorem one_line_for_each_event_escaped :
    let r : Record := ⟨"1970-01-01T00:00:00.000Z", "warn", "bob", "groupsync_core",
      "say \"hi\"\r\n\\", some (.object [("a\n", .array [.int (-1), .null]), ("b", .object [])]),
      none⟩
    let filter : Filter := ⟨[⟨none, some .trace⟩]⟩
    let first : Event := ⟨⟨0⟩, .info, "groupsync_core", [("count", .integer 1),
      ("message", .text "first"), ("b\"", .text "\n"), ("count", .integer 2), ("a", .truth true),
      ("message", .text "Applied\nbatch"), ("message", .failure "no")],
      [.ofName "outer", .ofName "inner"]⟩
    let second := Event.saying "opened" [] ⟨1⟩ .warn "groupsync_core" []
    r.Keepable ∧ ('\n' ∉ r.toLine.toList ∧ Record.ofLine r.toLine = .ok r) ∧
      openFile false ⟨0⟩ "bob" = .ok "raw/1970-01-01_bob.jsonl" ∧
      ∃ text, runs filter false ⟨0⟩ "bob" [[first], [second]] =
          .ok ("raw/1970-01-01_bob.jsonl", text) ∧
        records text = [
          .ok ⟨"1970-01-01T00:00:00.000Z", "info", "bob", "groupsync_core", "Applied\nbatch",
            some (.object [("a", .bool true), ("b\"", .string "\n"), ("count", .int 2),
              ("message", .string "no")]), some "outer > inner"⟩,
          .ok ⟨"1970-01-01T00:00:00.001Z", "warn", "bob", "groupsync_core", "opened", none,
            none⟩] := by
  intro r filter first second
  have hr : r.Keepable := by
    intro v hv
    cases hv
    have harray : Json.Exact 125 (.array [.int (-1), .null]) := by
      refine .array fun v hv => ?_
      simp only [List.mem_cons, List.not_mem_nil, or_false] at hv
      obtain rfl | rfl := hv
      · exact .int (by unfold Json.Fits; decide)
      · exact .null
    refine ⟨nofun, .object (List.pairwise_pair.2 (by decide)) fun f hf => ?_⟩
    simp only [List.mem_cons, List.not_mem_nil, or_false] at hf
    obtain rfl | rfl := hf
    · exact harray
    · exact .object .nil fun f hf => absurd hf List.not_mem_nil
  have hevents : ∀ events ∈ [[first], [second]], ∀ e ∈ events, e.Keepable := by
    have hfirst : first.Keepable := by
      intro value hvalue
      simp only [first, List.mem_cons, List.not_mem_nil, or_false] at hvalue
      obtain rfl | rfl | rfl | rfl | rfl | rfl | rfl := hvalue
      · exact ⟨by decide, by decide⟩
      · trivial
      · trivial
      · exact ⟨by decide, by decide⟩
      · trivial
      · trivial
      · trivial
    have hsecond : second.Keepable := by
      intro value hvalue
      simp only [second, Event.saying, List.mem_cons, List.not_mem_nil, or_false] at hvalue
      obtain rfl := hvalue
      trivial
    intro events hmem e he
    simp only [List.mem_cons, List.not_mem_nil, or_false] at hmem
    obtain rfl | rfl := hmem
    · rw [List.mem_singleton.1 he]
      exact hfirst
    · rw [List.mem_singleton.1 he]
      exact hsecond
  have hheard : filter.heard [[first], [second]].flatten = [first, second] := rfl
  have hopen : openFile false ⟨0⟩ "bob" = .ok "raw/1970-01-01_bob.jsonl" := rfl
  obtain ⟨hrecords, hruns⟩ := one_line_for_each_event
  obtain ⟨hbreaks, hread⟩ := hrecords r hr
  obtain ⟨text, htext, htold⟩ := hruns filter false ⟨0⟩ "bob" _ [[first], [second]] hopen hevents
  rw [hheard] at htold
  obtain ⟨_, _, ⟨s, rfl, hs⟩, hlater, heq⟩ := List.forall₂_cons_left_iff.1 htold
  obtain ⟨_, _, ⟨t, rfl, ht⟩, hnone, rfl⟩ := List.forall₂_cons_left_iff.1 hlater
  have hend := List.forall₂_nil_left_iff.1 hnone
  have hfirst : first.record filter "bob" = ⟨"1970-01-01T00:00:00.000Z", "info", "bob",
      "groupsync_core", "Applied\nbatch", some (.object [("a", .bool true), ("b\"", .string "\n"),
        ("count", .int 2), ("message", .string "no")]), some "outer > inner"⟩ := by
    have htime : Timestamp.toText ⟨0⟩ = "1970-01-01T00:00:00.000Z" := by decide
    rw [← htime]
    rfl
  have hsecond : second.record filter "bob" = ⟨"1970-01-01T00:00:00.001Z", "warn", "bob",
      "groupsync_core", "opened", none, none⟩ := by
    have htime : Timestamp.toText ⟨1⟩ = "1970-01-01T00:00:00.001Z" := by decide
    rw [← htime]
    rfl
  -- each event has one record that tells all of it
  rw [hend, hs.unique (first.told_record filter "bob"), hfirst,
    ht.unique (second.told_record filter "bob"), hsecond] at heq
  exact ⟨hr, ⟨fun hmem => (hbreaks _ hmem).1 rfl, hread⟩, hopen, text, htext, heq⟩

end Journal

end SecureGroup
