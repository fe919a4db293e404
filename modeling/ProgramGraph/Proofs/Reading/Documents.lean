import ProgramGraph.Proofs.Reading.Declarations
import ProgramGraph.Proofs.Reading.Incremental

set_option autoImplicit false

/-!
# Reading back documents

A document is read back from the compact text of its value, if the value is nested no deeper than a
text may be. The declarations of a document stand two levels below it, and the values in them, which
are read completely before they are decoded, one more.

## Main definitions

* `ProgramGraph.Document.LinesFit` — the line numbers in a document fit 32 bits.

## Main results

* `ProgramGraph.Document.declarationHere_compact` — a declaration is read back.
* `ProgramGraph.Document.read_compact_encode` — a document is read back.
-/

namespace ProgramGraph.Document

open Json (Value maxDepth writeText EndsValue)

variable {n depth steps : Nat} {name : Option String} {rest more : List Char}

/-- The line numbers in a document fit 32 bits. -/
def LinesFit (d : Document) : Prop := Declaration.ListLinesFit d.declarations

/-- The lines in a list of declarations fit if they do in each one. -/
theorem Declaration.listLinesFit_iff {ds : List Declaration} :
    Declaration.ListLinesFit ds ↔ ∀ d ∈ ds, d.LinesFit := by
  induction ds with
  | nil => simp [Declaration.ListLinesFit]
  | cons d ds ih => rw [Declaration.ListLinesFit, ih, List.forall_mem_cons]

/-! ## Declarations -/

/-- A declaration is written as an object that starts with one of the known kinds and goes on. -/
theorem Declaration.encode_eq_object (d : Declaration) :
    ∃ kind ms, d.encode = .object (("kind", .text kind) :: ms) ∧ kind ∈ Declaration.kinds.names
      ∧ ms ≠ [] ∧ ∀ m ∈ ms, m.1 ≠ "kind" := by
  cases d <;> exact ⟨_, _, rfl, by simp [Declaration.kinds], by simp, by simp⟩

/-- A declaration is read back, if it is within the depth that is left. -/
theorem declarationHere_compact (d : Declaration) (fits : d.LinesFit) (within : d.encode.depth ≤ n)
    (limit : n ≤ maxDepth) (rest : List Char) :
    declarationHere n (d.encode.compact.toList ++ rest) = .ok (d, rest) := by
  -- the object itself is split while reading, so that decoding starts one level below it
  have decoded := Declaration.decode_encode d (maxDepth + 1) fits (by omega) (Nat.le_refl _)
  have exact := Declaration.isExact_encode d fits
  obtain ⟨kind, ms, written, known, nonempty, untagged⟩ := d.encode_eq_object
  rw [written] at decoded exact within ⊢
  rw [Declaration.decode_object known untagged] at decoded
  obtain ⟨n, rfl, deep⟩ := Value.exists_of_depth_object_le within
  have split : Declaration.kinds.splitHere (n + 1)
      ((Value.object (("kind", .text kind) :: ms)).compact.toList ++ rest)
        = .ok ((kind, .named ms), rest) :=
    Json.Alternatives.splitHere_compact known nonempty untagged exact.2
      (Nat.le_trans (Nat.le_max_right _ _) deep) rest
  rw [declarationHere, split]
  simp only [bind, Except.bind, decoded]
  rfl

/-- The declarations of a document are read back. -/
theorem declarationsHere_compact (ds : List Declaration) (fits : Declaration.ListLinesFit ds)
    (deep : Value.elementsDepth (Declaration.encodeList ds) ≤ n) (limit : n ≤ maxDepth)
    (rest : List Char) :
    declarationsHere (n + 1) ((Value.array (Declaration.encodeList ds)).compact.toList ++ rest)
      = .ok (ds, rest) := by
  rw [Declaration.listLinesFit_iff] at fits
  rw [Declaration.encodeList_eq_map] at deep ⊢
  rw [Value.elementsDepth_le_iff, List.forall_mem_map] at deep
  refine Json.listHere_compact ds rest (fun d hd => Declaration.isExact_encode d (fits d hd)) ?_
  intro d hd rest _
  exact declarationHere_compact d (fits d hd) (deep d hd) limit rest

/-! ## Documents -/

/-- The member for the name is read, and others are looked for. -/
theorem membersHere_name :
    membersHere depth (steps + 1) none none
        ((writeText "name").toList ++ ':' :: ((Value.ofText? name).compact.toList ++ ',' :: more))
      = membersHere depth steps (some name) none more := by
  obtain ⟨text, written, read⟩ := Json.readString_writeText "name"
    (':' :: ((Value.ofText? name).compact.toList ++ ',' :: more))
  have value := Json.optionalTextHere_compact "a string" name (',' :: more)
  rw [written, membersHere, Json.skipBlanks_cons (by decide)]
  simp [read, Json.wellFormed, Json.skipColon, value, bind, Except.bind, Json.skipBlanks, Json.isBlank]
  rfl

/-- The member for the declarations is read, and with it the document ends. -/
theorem membersHere_declarations {ds : List Declaration}
    (hds : declarationsHere depth more = .ok (ds, '}' :: rest)) :
    membersHere depth (steps + 1) (some name) none ((writeText "declarations").toList ++ ':' :: more)
      = .ok ({ name, declarations := ds }, rest) := by
  obtain ⟨text, written, read⟩ := Json.readString_writeText "declarations" (':' :: more)
  rw [written, membersHere, Json.skipBlanks_cons (by decide)]
  simp [read, Json.wellFormed, Json.skipColon, hds, bind, Except.bind, Json.skipBlanks, Json.isBlank]
  rfl

/-- A document in braces is read member by member. -/
theorem documentHere_members (text : List Char) :
    documentHere ('{' :: '"' :: text)
      = membersHere (maxDepth - 1) (text.length + 2) none none ('"' :: text) := by
  unfold documentHere
  simp only [Json.skipBlanks_cons (c := '{') (by decide), Json.skipBlanks_cons (c := '"') (by decide)]
  split
  · simp_all
  · rfl

/-- A document is read back, whatever stands behind it. -/
theorem documentHere_compact (d : Document) (fits : d.LinesFit) (within : d.encode.depth ≤ maxDepth)
    (rest : List Char) : documentHere (d.encode.compact.toList ++ rest) = .ok (d, rest) := by
  obtain ⟨name, ds⟩ := d
  obtain ⟨n, hn, deep⟩ := Value.exists_of_depth_object_le within
  simp only [Value.membersDepth, Value.depth] at deep
  obtain ⟨n, rfl⟩ : ∃ m, n = m + 1 := ⟨n - 1, by omega⟩
  have limit : maxDepth - 1 = n + 1 := by omega
  have declarations := declarationsHere_compact ds fits (n := n) (by omega) (by omega) ('}' :: rest)
  obtain ⟨text, start, -⟩ := Json.readString_writeText "name"
    (':' :: ((Value.ofText? name).compact.toList ++ ',' :: ((writeText "declarations").toList
      ++ ':' :: ((Value.array (Declaration.encodeList ds)).compact.toList ++ '}' :: rest))))
  have written : (encode { name, declarations := ds }).compact.toList ++ rest = '{' :: '"' :: text := by
    rw [← start, encode, Value.toList_compact_object, Value.toList_compactMembers_more,
      Value.toList_compactMembers_last]
    simp only [List.append_assoc, List.cons_append, List.nil_append]
  rw [written, documentHere_members, limit, ← start, membersHere_name]
  exact membersHere_declarations declarations

/-- **Documents are read back.** A document whose line numbers fit their 32 bits, and whose compact text
nests arrays and objects no deeper than a text may, is read back from this text: whatever kinds of
declarations, statements and expressions are in it, with any texts in them, and whichever fields are
missing.

**Proof sketch.** One lemma for each kind of value says that its compact text, followed by any rest, is read
back with this rest left over. The lemmas are composed along the document by induction on its size; the depth
that is left goes down by one for every bracket, which is why the depth of the whole must be bounded. -/
theorem read_compact_encode (d : Document) (fits : d.LinesFit) (within : d.encode.depth ≤ maxDepth) :
    read d.encode.compact = .ok d := by
  have whole := documentHere_compact d fits within []
  rw [List.append_nil] at whole
  rw [read, Json.whole, whole]
  rfl

/-- A method that returns a use of its parameter, in a class whose name needs an escape. -/
theorem read_compact_encode_method :
    let d : Document := { declarations := [.record "A\n" "class" [] [.function "f" (some .method) none
      false [{ name := "x" }] (some [.returned (some (.ref "x" (some "\"int\"") false (some 3)))])]] }
    d.LinesFit ∧ d.encode.depth ≤ maxDepth ∧ read d.encode.compact = .ok d := by
  intro d
  have fits : d.LinesFit := by
    simp [d, LinesFit, Declaration.ListLinesFit, Declaration.LinesFit, BodyLinesFit,
      Statement.ListLinesFit, Statement.LinesFit, Expression.OptionLinesFit, Expression.LinesFit,
      LineFits]
  have within : d.encode.depth ≤ maxDepth := by decide
  exact ⟨fits, within, read_compact_encode d fits within⟩

end ProgramGraph.Document
