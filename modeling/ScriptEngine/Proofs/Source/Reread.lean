import ScriptEngine.Heap.Conversion
import ScriptEngine.Proofs.Printing.Spelling
import ScriptEngine.Proofs.Reading.Completeness
import ScriptEngine.Proofs.Source.Excerpt
import ScriptEngine.Proofs.Source.Functions

-- The text of a function, from its recorded source, reads back as that function.

namespace ScriptEngine

open ScriptEngine.Grammar ScriptEngine.Stream ScriptEngine.Text

namespace Grammar

variable {script : List Char} {literal : Function} {s t : Stream}

-- A closing brace in the stream is one of the text.
theorem rightBrace_place (hat : s.At script) (hp : s.Passes (.symbol .rightBrace) t) :
    ∃ back, Cursor.In script ⟨s.offset, '\x7d' :: back⟩ ∧
      s = ofCursor ⟨s.offset, '\x7d' :: back⟩ := by
  obtain ⟨lexeme, rfl, htoken, -⟩ := hp
  obtain ⟨rest, hin, hs, hskip⟩ := hat.place trivial
  obtain ⟨offset, first, tail, found, size, ⟨hstart, -⟩, hscan, rfl, -⟩ := ofCursor_eq_next.mp hs.symm
  rw [hskip] at hstart
  cases hstart
  cases htoken
  obtain ⟨back, hback⟩ := Scan.token_symbol hscan
  rw [show first :: tail = '\x7d' :: back from hback.symm] at hin hs
  exact ⟨back, hin, hs⟩

-- A function ends with a closing brace, and goes over to another text together with that brace.
theorem Derives.function_closes (h : Derives script (.function literal) s t) :
    ∃ goal, Leads s goal ∧ goal.Passes (.symbol .rightBrace) t ∧
      literal.source = String.ofList (slice script s.offset goal.stop) ∧
      ∀ {other : List Char} {r : Relabelling} {move : Stream → Stream},
        Translation script other s goal r move →
        ∀ u, (move goal).Passes (.symbol .rightBrace) u →
          Derives other (.function (literal.relabel r)) (move s) u := by
  cases h with
  | unnamed hl hp hc hb =>
    cases hb with
    | block hopen hbody hclose =>
      have hblock := hopen.leads.trans hbody.leads
      have hparen := hc.leads.trans hblock
      have hinner := hl.leads.trans hp.leads
      have hleads := hinner.trans hparen
      refine ⟨_, hleads, hclose, rfl, fun htr u hu => ?_⟩
      have hbraces := Derives.block (htr.passes hopen hbody.leads)
        (htr.derives hbody (hinner.trans (hc.leads.trans hopen.leads)) (.refl _)) hu
      have hfunction := Derives.unnamed (htr.passes hl (hp.leads.trans hparen))
        (htr.derives hp hl.leads hparen) (htr.passes hc hblock) hbraces
      rw [htr.offset hblock, htr.source (.refl s) hleads (.refl _)] at hfunction
      exact hfunction
  | named hn hl hp hc hb =>
    cases hb with
    | block hopen hbody hclose =>
      have hblock := hopen.leads.trans hbody.leads
      have hparen := hc.leads.trans hblock
      have hnames := hp.leads.trans hparen
      have houter := hn.leads.trans hl.leads
      have hinner := houter.trans hp.leads
      have hleads := hinner.trans hparen
      refine ⟨_, hleads, hclose, rfl, fun htr u hu => ?_⟩
      have hbraces := Derives.block (htr.passes hopen hbody.leads)
        (htr.derives hbody (hinner.trans (hc.leads.trans hopen.leads)) (.refl _)) hu
      have hfunction := Derives.named (htr.passes hn (hl.leads.trans hnames))
        (htr.passes hl hnames) (htr.derives hp houter hparen) (htr.passes hc hblock) hbraces
      rw [htr.offset hblock, htr.source (.refl s) hleads (.refl _)] at hfunction
      exact hfunction

-- A text has one function at a place.
theorem Derives.function_unique {other : Function} {u : Stream}
    (h : Derives script (.function literal) s t) (ho : Derives script (.function other) s u) :
    literal = other := by
  have hone := h.gives (show Affords (8 * (s.length + 1)) _ s t by grind)
  have htwo := ho.gives (show Affords (8 * (s.length + 1)) _ s u by grind)
  simp only [Gives] at hone htwo
  rw [hone] at htwo
  cases htwo
  rfl

-- No offset of a function lies before its place.
theorem Derives.function_floor (h : Derives script (.function literal) s t) (hat : s.At script) :
    literal.relabel (.floor s.offset) = literal := by
  obtain ⟨goal, hleads, hclose, -, hmoved⟩ := h.function_closes
  have hpos : 0 < goal.length := by
    rw [hclose.length]
    exact Nat.succ_pos _
  have hcopy := hmoved (floor_translation hat hpos hleads) t
  rw [redirect_floor hat hpos (.refl s) hleads, redirect_goal hpos] at hcopy
  exact (hcopy hclose).function_unique h

-- The recorded source stands in the text, and any text that ends with it has the function there.
theorem Derives.function_excerpt (h : Derives script (.function literal) s t) (hat : s.At script) :
    ∃ text, literal.source = String.ofList (text ++ ['\x7d']) ∧
      ∀ head : List Char, ∃ stop,
        Derives (head ++ (text ++ ['\x7d']))
          (.function (literal.relabel (.moving s.offset (width head))))
          (ofCursor ⟨width head, text ++ ['\x7d']⟩) (done stop) := by
  obtain ⟨goal, hleads, hclose, hsource, hmoved⟩ := h.function_closes
  have hpos : 0 < goal.length := by
    rw [hclose.length]
    exact Nat.succ_pos _
  obtain ⟨back, ⟨before, hbefore, hwidth⟩, hgoal⟩ := rightBrace_place (hat.leads hleads) hclose
  have hintact : goal.Intact := by
    rw [hgoal, ofCursor_brace]
    trivial
  obtain ⟨rest, ⟨front, hfront, hplace⟩, hs, -⟩ := hat.place (hleads.intact hintact)
  have hle := hat.offset_le hleads hintact
  dsimp only at hbefore hwidth hfront hplace
  -- The function takes the text from its place to its closing brace.
  obtain ⟨text, rfl⟩ : front <+: before :=
    prefix_of_width_le ⟨_, hfront.symm⟩ ⟨_, hbefore.symm⟩ (by omega)
  have hscript : script = front ++ (text ++ '\x7d' :: back) := by
    rw [hbefore, List.append_assoc]
  have hrest : rest = text ++ '\x7d' :: back :=
    List.append_cancel_left (hfront.symm.trans hscript)
  rw [width_append] at hwidth
  rw [← hwidth] at hgoal
  rw [← hplace, hrest] at hs
  refine ⟨text, ?_, fun head => ?_⟩
  · have hstop : goal.stop = width front + width (text ++ ['\x7d']) := by
      rw [hgoal, ofCursor_brace, width_append, ← Nat.add_assoc]
      rfl
    have hmiddle : script = front ++ ((text ++ ['\x7d']) ++ back) := by
      rw [hscript]
      simp
    rw [hsource, hstop, hmiddle, ← hplace, slice_whole]
  · have hbrace : (ofCursor ⟨width head + width text, ['\x7d']⟩).Passes (.symbol .rightBrace)
        (done (width head + width text + 1)) := by
      have hend : ofCursor ⟨width head + width text + 1, []⟩ =
          done (width head + width text + 1) := ofCursor_eq_done.mpr Scan.skipGap_nil
      rw [ofCursor_brace, hend]
      exact ⟨_, rfl, rfl, trivial⟩
    have htr : Translation script (head ++ (text ++ ['\x7d'])) s goal
        (.moving (width front) (width head)) (redirect (.moving (width front) (width head)) goal
          (ofCursor ⟨width head + width text, ['\x7d']⟩)) := by
      rw [hs]
      exact excerpt_translation hscript hgoal
    have hstart : redirect (.moving (width front) (width head)) goal
        (ofCursor ⟨width head + width text, ['\x7d']⟩) s =
          ofCursor ⟨width head, text ++ ['\x7d']⟩ := by
      rw [hs, hgoal] at hleads
      rw [hs, hgoal]
      exact redirect_excerpt ⟨front, hscript, rfl⟩ (Nat.add_comm _ _) hleads
    have hcopy := hmoved htr (done (width head + width text + 1))
    rw [redirect_goal hpos, hstart, hplace] at hcopy
    exact ⟨_, hcopy hbrace⟩

end Grammar

namespace Function

-- What a function value is shown as.
def text (literal : Function) : String :=
  "function " ++ literal.source

theorem toText_closure {heap : Heap} {ref : ObjectRef} {closure : Closure}
    (h : (heap.object ref).kind = .function closure) :
    heap.toText (.object ref) = closure.function.text := by
  have hu : heap.unwrap (.object ref) = .object ref := by
    unfold Heap.unwrap
    cases heap.objects.size <;> simp [Heap.unwrapWithin, Object.instance?, h]
  simp [Heap.toText, Heap.textWithin, hu, Heap.plainText, h, text]

-- The same function at another place: all offsets differ by the same distance.
structure Copies (found literal : Function) : Prop where
  name : found.name = literal.name
  parameters : found.parameters = literal.parameters
  source : found.source = literal.source
  shifted : ∃ here there, found.relabel (.shift here) = literal.relabel (.shift there)

-- The text of a function reads back as the function: with a name as a program of one statement,
-- without one as an expression.
def Rereads (literal : Function) : Prop :=
  ∃ found : Function, found.Copies literal ∧
    match literal.name with
    | some name =>
      Program.read literal.text =
        .ok ⟨0, [.expression (.assign 0 (.identifier 0 name) (.function 0 found))]⟩
    | none => Expr.read literal.text = .ok (.function 0 found)

variable {script : List Char} {literal : Function} {s t : Stream}

theorem copies_moving {start new : Nat} (h : literal.relabel (.floor start) = literal) :
    (literal.relabel (.moving start new)).Copies literal := by
  refine ⟨literal.relabel_name, ?_, ?_, start, new, ?_⟩
  · cases literal
    simp [Function.relabel, Function.parameters]
  · cases literal
    simp [Function.relabel, Function.source, Relabelling.moving]
  · -- Behind the start the two moves are a shift.
    have hmoves : (Relabelling.floor start).andThen
        ((Relabelling.moving start new).andThen (.shift start)) =
          (Relabelling.floor start).andThen (.shift new) := by
      simp only [Relabelling.andThen, Relabelling.floor, Relabelling.moving, Relabelling.shift,
        Relabelling.mk.injEq]
      refine ⟨?_, rfl⟩
      funext offset
      simp only [Function.comp]
      omega
    rw [← h, Function.relabel_relabel, Function.relabel_relabel, hmoves, Function.relabel_relabel]

theorem ofText_function (text : List Char) :
    Stream.ofText ("function ".toList ++ text) =
      .next ⟨.keyword .functionWord, 0, 8⟩ (ofCursor ⟨9, text⟩) :=
  ofCursor_spells (Scan.spells_keyword .functionWord) 0 text

-- A function that the text has somewhere reads back.
theorem rereads_of_traced (h : Traced script literal) : literal.Rereads := by
  obtain ⟨s, t, hat, hd⟩ := h
  obtain ⟨text, hsource, hcopy⟩ := hd.function_excerpt hat
  obtain ⟨stop, hfunction⟩ := hcopy "function ".toList
  have hlist : literal.source.toList = text ++ ['\x7d'] := by
    rw [hsource, String.toList_ofList]
  have htext : literal.text.toList = "function ".toList ++ (text ++ ['\x7d']) := by
    rw [Function.text, String.toList_append, hlist]
  have hstream := ofText_function (text ++ ['\x7d'])
  rw [← htext] at hstream hfunction
  generalize hfound : literal.relabel (.moving s.offset (width "function ".toList)) = found
    at hfunction
  have hcopies : found.Copies literal := by
    rw [← hfound]
    exact copies_moving (hd.function_floor hat)
  have hword : (Stream.ofText literal.text.toList).Passes (.keyword .functionWord)
      (ofCursor ⟨9, text ++ ['\x7d']⟩) :=
    ⟨_, hstream, rfl, hfunction.leads.intact trivial⟩
  have hintact : (Stream.ofText literal.text.toList).Intact := by
    rw [hstream]
    trivial
  have hoffset : (Stream.ofText literal.text.toList).offset = 0 := by
    rw [hstream]
    rfl
  refine ⟨found, hcopies, ?_⟩
  cases hname : literal.name with
  | some name =>
    have hstatement := Derives.functionStatement hword hfunction (hcopies.name.trans hname)
    rw [hoffset] at hstatement
    have hitem : (Stream.ofText literal.text.toList).token? ≠ none := by
      simp [hword.token?]
    exact Program.read_eq_ok.mpr
      ⟨hintact, hoffset.symm, _, .moreItems hitem hstatement (.noItems rfl)⟩
  | none =>
    have hprimary := Derives.lambda hword hfunction (hcopies.name.trans hname) (.noSuffix rfl)
    rw [hoffset] at hprimary
    have hunary := Derives.unsigned (by rw [hword.token?]; rfl) hprimary
    exact Expr.read_eq_ok.mpr
      ⟨hintact, _, _, .chain hunary (.noLinks rfl) rfl, .inl ⟨rfl, rfl⟩, rfl⟩

-- Every function literal of a text that can be read, at any depth, reads back from the text that its
-- value is shown as.
theorem rereads_of_read (text : String) (literal : Function)
    (h : (∃ program, Program.read text = .ok program ∧ literal ∈ program.functions) ∨
      (∃ value, Expr.read text = .ok value ∧ literal ∈ value.functions)) :
    literal.Rereads ∧
      ∀ (heap : Heap) (ref : ObjectRef) (closure : Closure),
        (heap.object ref).kind = .function closure → closure.function = literal →
          heap.toText (.object ref) = literal.text := by
  have htraced : Traced text.toList literal := by
    obtain ⟨program, hread, hmem⟩ | ⟨value, hread, hmem⟩ := h
    · obtain ⟨-, -, t, hd⟩ := Program.read_eq_ok.mp hread
      exact (hd.traced ofText_at hmem).resolve_left List.not_mem_nil
    · obtain ⟨-, s, t, hd, -⟩ := Expr.read_eq_ok.mp hread
      exact (hd.traced ofText_at hmem).resolve_left List.not_mem_nil
  refine ⟨rereads_of_traced htraced, fun heap ref closure hkind hclosure => ?_⟩
  rw [toText_closure hkind, hclosure]

-- A function inside of another, with braces in a comment and in a string.
def nestedText : String :=
  "var g = 1; function f(a) \x7b /* \x7d */ return function () \x7b return '\x7d'; \x7d; \x7d // end"

theorem rereads_nestedText :
    ∃ program, Program.read nestedText = .ok program ∧
      program.functions.map (fun literal => (literal.name, literal.source)) =
        [(some "f", "f(a) \x7b /* \x7d */ return function () \x7b return '\x7d'; \x7d; \x7d"),
          (none, "() \x7b return '\x7d'; \x7d")] ∧
      ∀ literal ∈ program.functions, literal.Rereads ∧
        ∀ (heap : Heap) (ref : ObjectRef) (closure : Closure),
          (heap.object ref).kind = .function closure → closure.function = literal →
            heap.toText (.object ref) = literal.text := by
  have hfunctions : (Program.read nestedText).toOption.map (fun program =>
      program.functions.map fun literal => (literal.name, literal.source)) =
        some [(some "f", "f(a) \x7b /* \x7d */ return function () \x7b return '\x7d'; \x7d; \x7d"),
          (none, "() \x7b return '\x7d'; \x7d")] := by
    decide +kernel
  cases hread : Program.read nestedText with
  | error error =>
    rw [hread] at hfunctions
    cases hfunctions
  | ok program =>
    rw [hread] at hfunctions
    exact ⟨program, rfl, Option.some.inj hfunctions, fun literal hmem =>
      rereads_of_read nestedText literal (.inl ⟨program, hread, hmem⟩)⟩

end Function

end ScriptEngine
