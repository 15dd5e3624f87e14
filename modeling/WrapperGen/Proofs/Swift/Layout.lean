import Mathlib.Data.List.Chain
import WrapperGen.Proofs.Swift.Readback

namespace WrapperGen.Swift

variable {c : GeneratorConfig} {e : Entry} {typeName source text line name : String}
  {lines : List String} {steps later body : List Step} {depth : Nat}

/-! ## Braces and levels -/

/-- How many braces are open behind a character. None, when it closes one that is not open. -/
def braceDepth (depth : Nat) (c : Char) : Option Nat :=
  if c = '\x7b' then some (depth + 1)
  else if c = '\x7d' then if depth = 0 then none else some (depth - 1)
  else some depth

/-- How many braces are open behind a text, with some open before it. -/
def openBraces (depth : Nat) : List Char → Option Nat
  | [] => some depth
  | c :: rest => (braceDepth depth c).bind (openBraces · rest)

/-- The braces of a text, without what stands between them. -/
def bracesOf (text : List Char) : List Char := text.filter fun c => c = '\x7b' ∨ c = '\x7d'

/-- The line starts with exactly four spaces for each level, or for one level less if what follows
is a closing brace. -/
def IsIndented (depth : Nat) (line : String) : Prop :=
  ∃ text, line.toList =
      List.replicate (4 * if text.head? = some '\x7d' then depth - 1 else depth) ' ' ++ text ∧
    text.head? ≠ some ' '

/-- Lines that lead from one number of open braces to another. Each that is not empty is indented by
the braces open before it. -/
inductive Braced : Nat → List String → Nat → Prop
  | nil (depth : Nat) : Braced depth [] depth
  | cons {depth next last : Nat} {line : String} {rest : List String}
    (indented : line ≠ "" → IsIndented depth line)
    (braces : openBraces depth line.toList = some next) (later : Braced next rest last) :
    Braced depth (line :: rest) last

/-- Lines with balanced braces, laid out to stand inside of some more. -/
structure LaidOut (depth : Nat) (lines : List String) : Prop where
  single : ∀ line ∈ lines, '\n' ∉ line.toList
  braced : Braced depth lines depth
  noSpaceAtEnd : ∀ line ∈ lines, line.toList.getLast? ≠ some ' '
  noGap : lines.IsChain fun line next => line ≠ "" ∨ next ≠ ""

theorem bracesOf_append (text rest : List Char) :
    bracesOf (text ++ rest) = bracesOf text ++ bracesOf rest :=
  List.filter_append ..

/-- Only the braces of a text count. -/
theorem openBraces_bracesOf (depth : Nat) (text : List Char) :
    openBraces depth (bracesOf text) = openBraces depth text := by
  induction text generalizing depth with
  | nil => rfl
  | cons c text ih =>
    rw [bracesOf, List.filter_cons]
    split
    next => simp only [openBraces, ← ih, bracesOf]
    next other =>
      have same : braceDepth depth c = some depth := by
        obtain ⟨notOpening, notClosing⟩ := not_or.mp (mt decide_eq_true other)
        rw [braceDepth, if_neg notOpening, if_neg notClosing]
      rw [openBraces, same]
      exact ih depth

theorem Braced.append {next last : Nat} {rest : List String} (front : Braced depth lines next)
    (behind : Braced next rest last) : Braced depth (lines ++ rest) last := by
  induction front with
  | nil => exact behind
  | cons indented braces later ih => exact .cons indented braces (ih behind)

/-! ## Text inside a line -/

/-- The text has no brace and no line feed. -/
def IsInline (text : String) : Prop := ∀ mark ∈ ['\n', '\x7b', '\x7d'], mark ∉ text.toList

instance (text : String) : Decidable (IsInline text) :=
  List.decidableBAll (· ∉ text.toList) ['\n', '\x7b', '\x7d']

theorem isInline_append {text rest : String} :
    IsInline (text ++ rest) ↔ IsInline text ∧ IsInline rest := by
  simp only [IsInline, String.toList_append, List.mem_append, not_or]
  exact ⟨fun both => ⟨fun mark mem => (both mark mem).1, fun mark mem => (both mark mem).2⟩,
    fun both mark mem => ⟨both.1 mark mem, both.2 mark mem⟩⟩

theorem IsInline.intercalate {separator : String} (between : IsInline separator)
    {parts : List String} (each : ∀ part ∈ parts, IsInline part) :
    IsInline (separator.intercalate parts) := by
  induction parts with
  | nil => simp [IsInline]
  | cons part rest ih =>
    obtain ⟨first, others⟩ := List.forall_mem_cons.mp each
    cases rest with
    | nil => simpa using first
    | cons next rest =>
      rw [String.intercalate_cons_cons]
      exact isInline_append.mpr ⟨isInline_append.mpr ⟨first, between⟩, ih others⟩

theorem isMark_of_mem_inline {mark : Char} (mem : mark ∈ ['\n', '\x7b', '\x7d']) : IsMark mark := by
  simp only [List.mem_cons, List.not_mem_nil, or_false] at mem
  rcases mem with rfl | rfl | rfl <;> decide

theorem isInline_of_isIdentifier (identifier : isIdentifier name = true) : IsInline name :=
  fun _ mem => notMem_of_isIdentifier identifier (isMark_of_mem_inline mem).1

theorem isInline_escape (identifier : isIdentifier name = true) : IsInline (escape name) :=
  fun _ mem => notMem_escape identifier (isMark_of_mem_inline mem)

theorem IsInline.bracesOf_eq_nil (inline : IsInline text) : bracesOf text.toList = [] := by
  refine List.filter_eq_nil_iff.mpr fun c mem brace => ?_
  obtain rfl | rfl := of_decide_eq_true brace
  · exact inline '\x7b' (by decide) mem
  · exact inline '\x7d' (by decide) mem

/-- The text starts with a character that is no space and no closing brace. -/
def StartsLine (text : String) : Prop := StartsWith (fun c => c ≠ ' ' ∧ c ≠ '\x7d') text

/-- The text ends with a character that is no space. -/
def EndsLine (text : String) : Prop := EndsWith (· ≠ ' ') text

theorem ne_of_mem_identifier (identifier : isIdentifier name = true) {mark : Char}
    (isMark : IsMark mark) : ∀ c ∈ name.toList, c ≠ mark :=
  fun _ mem same => notMem_of_isIdentifier identifier isMark.1 (same ▸ mem)

theorem startsLine_of_isIdentifier (identifier : isIdentifier name = true) : StartsLine name :=
  startsWith_of_forall (ne_empty_of_isIdentifier identifier) fun c mem =>
    ⟨ne_of_mem_identifier identifier (by decide) c mem,
      ne_of_mem_identifier identifier (by decide) c mem⟩

theorem endsLine_of_isIdentifier (identifier : isIdentifier name = true) : EndsLine name :=
  endsWith_of_forall (ne_empty_of_isIdentifier identifier)
    (ne_of_mem_identifier identifier (by decide))

/-! ## Lines of code -/

theorem indented_ne_empty (some : text ≠ "") (depth : Nat) :
    SourceWriter.indented depth text ≠ "" := by
  rw [SourceWriter.indented, if_neg (by simpa using some), ne_eq, String.append_eq_empty_iff]
  exact fun empty => some empty.2

/-- One line that is neither empty nor starts with a closing brace, with its braces. -/
structure IsCode (text : String) (braces : List Char) : Prop where
  single : '\n' ∉ text.toList
  braces : bracesOf text.toList = braces
  starts : StartsLine text
  ends : EndsLine text

theorem IsInline.isCode (inline : IsInline text) (starts : StartsLine text)
    (ends : EndsLine text) : IsCode text [] :=
  ⟨inline '\n' (by decide), inline.bracesOf_eq_nil, starts, ends⟩

/-- A line whose names are in front and whose braces are behind. -/
theorem IsInline.isCode_append (inline : IsInline text) (starts : StartsLine text)
    {behind : String} {braces : List Char} (single : '\n' ∉ behind.toList)
    (same : bracesOf behind.toList = braces) (ends : EndsLine behind) :
    IsCode (text ++ behind) braces := by
  refine ⟨?_, ?_, starts.append behind, ends.append text⟩
  · rw [String.toList_append, List.mem_append, not_or]
    exact ⟨inline '\n' (by decide), single⟩
  · rw [String.toList_append, bracesOf_append, inline.bracesOf_eq_nil, same]
    rfl

namespace IsCode

variable {braces : List Char} (code : IsCode text braces)
include code

theorem ne_empty : text ≠ "" := by
  rintro rfl
  obtain ⟨first, mem, -⟩ := code.starts
  cases mem

theorem toList_indented (depth : Nat) : (SourceWriter.indented depth text).toList =
    List.replicate (4 * depth) ' ' ++ text.toList :=
  Swift.toList_indented code.ne_empty depth

theorem indented_ne_empty (depth : Nat) : SourceWriter.indented depth text ≠ "" :=
  Swift.indented_ne_empty code.ne_empty depth

theorem isIndented (depth : Nat) : IsIndented depth (SourceWriter.indented depth text) := by
  obtain ⟨first, mem, notSpace, notBrace⟩ := code.starts
  have head := Option.mem_def.mp mem
  refine ⟨text.toList, ?_, ?_⟩
  · rw [head, if_neg (by simpa using notBrace)]
    exact code.toList_indented depth
  · rw [head]
    simpa using notSpace

theorem bracesOf_indented (depth : Nat) :
    bracesOf (SourceWriter.indented depth text).toList = braces := by
  have spaces : bracesOf (List.replicate (4 * depth) ' ') = [] := by simp [bracesOf]
  rw [code.toList_indented, bracesOf_append, spaces, code.braces]
  rfl

theorem single_indented (depth : Nat) : '\n' ∉ (SourceWriter.indented depth text).toList := by
  simp [code.toList_indented, code.single]

theorem noSpaceAtEnd (depth : Nat) :
    (SourceWriter.indented depth text).toList.getLast? ≠ some ' ' := by
  obtain ⟨last, mem, solid⟩ := code.ends
  rw [code.toList_indented, List.getLast?_append, Option.mem_def.mp mem]
  simpa using solid

end IsCode

/-! ## Steps that keep the layout -/

/-- Steps that open every brace at the end of a line and close it in a line of its own, with the
steps between them one level deeper, and that leave single lines empty in front of others; with the
braces of each line. -/
inductive Tidy : List Step → List (List Char) → Prop
  | nil : Tidy [] []
  | line {text : String} {rest : List Step} {shape : List (List Char)} (code : IsCode text [])
    (later : Tidy rest shape) : Tidy (.line text :: rest) ([] :: shape)
  | scope {text : String} {body rest : List Step} {inner shape : List (List Char)}
    (code : IsCode text ['\x7b']) (inside : Tidy body inner) (later : Tidy rest shape) :
    Tidy (.line text :: .indent body :: .line "\x7d" :: rest)
      (['\x7b'] :: (inner ++ ['\x7d'] :: shape))
  | gap {text : String} {rest : List Step} {shape : List (List Char)} (some : text ≠ "")
    (later : Tidy (.line text :: rest) shape) : Tidy (.line "" :: .line text :: rest) ([] :: shape)

/-! ### The lines of tidy steps -/

namespace LaidOut

theorem nil (depth : Nat) : LaidOut depth [] := ⟨nofun, .nil depth, nofun, .nil⟩

theorem code (code : IsCode text []) (later : LaidOut depth lines) :
    LaidOut depth (SourceWriter.indented depth text :: lines) where
  single := List.forall_mem_cons.mpr ⟨code.single_indented depth, later.single⟩
  braced := by
    refine .cons (fun _ => code.isIndented depth) ?_ later.braced
    rw [← openBraces_bracesOf, code.bracesOf_indented]
    rfl
  noSpaceAtEnd := List.forall_mem_cons.mpr ⟨code.noSpaceAtEnd depth, later.noSpaceAtEnd⟩
  noGap := List.isChain_cons.mpr ⟨fun _ _ => .inl (code.indented_ne_empty depth), later.noGap⟩

theorem gap {line : String} (some : line ≠ "") (later : LaidOut depth (line :: lines)) :
    LaidOut depth ("" :: line :: lines) where
  single := List.forall_mem_cons.mpr ⟨by simp, later.single⟩
  braced := .cons (fun other => absurd rfl other) rfl later.braced
  noSpaceAtEnd := List.forall_mem_cons.mpr ⟨by simp, later.noSpaceAtEnd⟩
  noGap := List.isChain_cons_cons.mpr ⟨.inr some, later.noGap⟩

theorem closing (depth : Nat) : (SourceWriter.indented depth "\x7d").toList =
    List.replicate (4 * depth) ' ' ++ ['\x7d'] :=
  toList_indented (by decide) depth

theorem bracesOf_closing (depth : Nat) :
    bracesOf (SourceWriter.indented depth "\x7d").toList = ['\x7d'] := by
  simp [closing, bracesOf]

/-- What stands between a line that opens a brace and one that closes it is one level deeper. -/
theorem scope {inner : List String} (code : IsCode text ['\x7b'])
    (inside : LaidOut (depth + 1) inner) (later : LaidOut depth lines) :
    LaidOut depth (SourceWriter.indented depth text ::
      (inner ++ SourceWriter.indented depth "\x7d" :: lines)) where
  single := by
    refine List.forall_mem_cons.mpr ⟨code.single_indented depth, List.forall_mem_append.mpr
      ⟨inside.single, List.forall_mem_cons.mpr ⟨?_, later.single⟩⟩⟩
    simp [closing]
  braced := by
    refine .cons (fun _ => code.isIndented depth) ?_ (inside.braced.append
      (.cons (fun _ => ⟨['\x7d'], closing depth, by simp⟩) ?_ later.braced))
    · rw [← openBraces_bracesOf, code.bracesOf_indented]
      rfl
    · rw [← openBraces_bracesOf, bracesOf_closing]
      rfl
  noSpaceAtEnd := by
    refine List.forall_mem_cons.mpr ⟨code.noSpaceAtEnd depth, List.forall_mem_append.mpr
      ⟨inside.noSpaceAtEnd, List.forall_mem_cons.mpr ⟨?_, later.noSpaceAtEnd⟩⟩⟩
    simp [closing]
  noGap := by
    -- Whatever the last line inside is, the closing brace behind it is no empty line.
    have closed := indented_ne_empty (show "\x7d" ≠ "" by decide) depth
    refine List.isChain_cons.mpr ⟨fun _ _ => .inl (code.indented_ne_empty depth),
      List.isChain_append.mpr ⟨inside.noGap,
        List.isChain_cons.mpr ⟨fun _ _ => .inl closed, later.noGap⟩, ?_⟩⟩
    rintro line - next ⟨⟩
    exact .inr closed

end LaidOut

namespace Tidy

variable {shape : List (List Char)}

theorem append {shape' : List (List Char)} (tidy : Tidy steps shape) (behind : Tidy later shape') :
    Tidy (steps ++ later) (shape ++ shape') := by
  induction tidy with
  | nil => exact behind
  | line code later ih => exact .line code ih
  | scope code inside later _ ih =>
    simpa only [List.cons_append, List.append_assoc] using Tidy.scope code inside ih
  | gap some later ih => exact .gap some ih

theorem haltOf_eq_none (tidy : Tidy steps shape) : haltOf steps = none := by
  induction tidy with
  | nil => rfl
  | line code later ih => exact ih
  | scope code inside later ihInside ih =>
    simp [haltOf, Step.halt?, ihInside, ih]
  | gap some later ih => exact ih

theorem linesOf_scope (inside : Tidy body shape) (text : String) (rest : List Step)
    (depth : Nat) :
    linesOf depth (.line text :: .indent body :: .line "\x7d" :: rest) =
      SourceWriter.indented depth text ::
        (linesOf (depth + 1) body ++ SourceWriter.indented depth "\x7d" :: linesOf depth rest) := by
  simp [linesOf, Step.linesAt, Step.halt?, inside.haltOf_eq_none]

/-- Whatever the level, tidy steps write lines that are laid out at it. -/
theorem laidOut (tidy : Tidy steps shape) (depth : Nat) : LaidOut depth (linesOf depth steps) := by
  induction tidy generalizing depth with
  | nil => exact .nil depth
  | line code later ih => exact .code code (ih depth)
  | scope code inside later ihInside ih =>
    -- The steps inside run one level deeper, where one more brace is open.
    rw [inside.linesOf_scope]
    exact .scope code (ihInside (depth + 1)) (ih depth)
  | gap some later ih => exact .gap (indented_ne_empty some depth) (ih depth)

theorem map_bracesOf (tidy : Tidy steps shape) (depth : Nat) :
    (linesOf depth steps).map (bracesOf ·.toList) = shape := by
  induction tidy generalizing depth with
  | nil => rfl
  | line code later ih => exact congrArg₂ List.cons (code.bracesOf_indented depth) (ih depth)
  | scope code inside later ihInside ih =>
    rw [inside.linesOf_scope, List.map_cons, List.map_append, List.map_cons,
      code.bracesOf_indented, LaidOut.bracesOf_closing, ihInside, ih]
  | gap some later ih => exact congrArg (List.cons []) (ih depth)

end Tidy

/-! ## The steps of a class -/

/-- Lines that open a brace and close it behind other lines. -/
def enclosed (inner : List (List Char)) : List (List Char) := ['\x7b'] :: (inner ++ [['\x7d']])

/-- The braces in each line of a class that shows a state or not, with a number of actions. -/
def outline (stateful : Bool) (actions : Nat) : List (List Char) :=
  let method := [] :: enclosed [[]]
  let shown := if stateful then [[], [], []] else []
  let subscribed := if stateful then [] :: enclosed (enclosed [[]]) else []
  let closed := if stateful then method else []
  [] :: enclosed ([] :: shown ++ [] :: enclosed ([] :: subscribed) ++ closed ++
    (List.replicate actions method).flatten)

theorem Tidy.enclosed {inner : List (List Char)} (code : IsCode text ['\x7b'])
    (inside : Tidy body inner) :
    Tidy [.line text, .indent body, .line "\x7d"] (enclosed inner) :=
  .scope code inside .nil

/-- The names that the subscription to the state is written with stay inside of their lines. -/
structure InlineNames (c : GeneratorConfig) : Prop where
  subscriptionType : IsInline c.subscriptionType
  subscribeMethod : IsInline c.subscribeMethod
  closeMethod : IsInline c.closeMethod

theorem tidy_stateSteps (inline : InlineNames c) {state : Option StateEntry}
    (writable : ∀ s ∈ state, WritableState s) :
    Tidy (stateSteps c state) (if state.isSome then [[], [], []] else []) := by
  cases state with
  | none => exact .nil
  | some s =>
    obtain ⟨property, bridged⟩ := writable s rfl
    have type := isIdentifier_of_isBridged bridged
    have subscription : IsCode ("private var " ++ s.property ++ "Subscription: " ++
        c.subscriptionType ++ "?") [] := by
      refine IsInline.isCode ?_ (by simp [StartsLine, StartsWith]) (.append (by simp [EndsWith]) _)
      simp only [isInline_append]
      exact ⟨⟨⟨⟨by decide, isInline_of_isIdentifier property⟩, by decide⟩,
        inline.subscriptionType⟩, by decide⟩
    have shown : IsCode ("@Published private(set) var " ++ escape s.property ++ ": " ++
        s.typeName) [] := by
      refine IsInline.isCode ?_ (by simp [StartsLine, StartsWith])
        ((endsLine_of_isIdentifier type).append _)
      simp only [isInline_append]
      exact ⟨⟨⟨by decide, isInline_escape property⟩, by decide⟩, isInline_of_isIdentifier type⟩
    exact .line subscription (.gap shown.ne_empty (.line shown .nil))

theorem tidy_subscribeSteps (inline : InlineNames c) {state : Option StateEntry}
    (writable : ∀ s ∈ state, WritableState s) :
    Tidy (subscribeSteps c state)
      (if state.isSome then [] :: enclosed (enclosed [[]]) else []) := by
  cases state with
  | none => exact .nil
  | some s =>
    obtain ⟨property, bridged⟩ := writable s rfl
    have type := isIdentifier_of_isBridged bridged
    have escaped := isInline_escape property
    have ends := endsLine_of_isIdentifier type
    have first : IsCode ("self." ++ escape s.property ++ " = viewModel." ++ escape s.property ++
        ".value as! " ++ s.typeName) [] := by
      refine IsInline.isCode ?_ (by simp [StartsLine, StartsWith]) (ends.append _)
      simp only [isInline_append]
      exact ⟨⟨⟨⟨⟨by decide, escaped⟩, by decide⟩, escaped⟩, by decide⟩,
        isInline_of_isIdentifier type⟩
    have next : IsCode ("self?." ++ escape s.property ++ " = value as! " ++ s.typeName) [] := by
      refine IsInline.isCode ?_ (by simp [StartsLine, StartsWith]) (ends.append _)
      simp only [isInline_append]
      exact ⟨⟨⟨by decide, escaped⟩, by decide⟩, isInline_of_isIdentifier type⟩
    have subscribed : IsCode ("self." ++ s.property ++ "Subscription = viewModel." ++
        escape s.property ++ "." ++ c.subscribeMethod ++ " \x7b [weak self] value in")
        ['\x7b'] := by
      refine IsInline.isCode_append ?_ (by simp [StartsLine, StartsWith]) (by decide) (by decide)
        (by simp [EndsLine, EndsWith])
      simp only [isInline_append]
      exact ⟨⟨⟨⟨⟨by decide, isInline_of_isIdentifier property⟩, by decide⟩, escaped⟩, by decide⟩,
        inline.subscribeMethod⟩
    have queued : IsCode "DispatchQueue.main.async \x7b" ['\x7b'] :=
      ⟨by decide, by decide, by simp [StartsLine, StartsWith], by simp [EndsLine, EndsWith]⟩
    exact .line first (.enclosed subscribed (.enclosed queued (.line next .nil)))

theorem tidy_initSteps (inline : InlineNames c) (writable : Writable typeName e) :
    Tidy (initSteps c e)
      (enclosed ([] :: if e.state.isSome then [] :: enclosed (enclosed [[]]) else [])) := by
  have declaration : IsCode ("init(_ viewModel: " ++ e.simpleName ++ ") \x7b") ['\x7b'] := by
    refine IsInline.isCode_append ?_ (by simp [StartsLine, StartsWith]) (by decide) (by decide)
      (by simp [EndsLine, EndsWith])
    exact isInline_append.mpr ⟨by decide, isInline_of_isIdentifier writable.simple⟩
  have owned : IsCode "self.viewModel = viewModel" [] :=
    IsInline.isCode (by decide) (by simp [StartsLine, StartsWith]) (by simp [EndsLine, EndsWith])
  exact .enclosed declaration (.line owned (tidy_subscribeSteps inline writable.state))

theorem tidy_deinitSteps (inline : InlineNames c) {state : Option StateEntry}
    (writable : ∀ s ∈ state, WritableState s) :
    Tidy (deinitSteps c state) (if state.isSome then [] :: enclosed [[]] else []) := by
  cases state with
  | none => exact .nil
  | some s =>
    obtain ⟨property, -⟩ := writable s rfl
    have declaration : IsCode "deinit \x7b" ['\x7b'] :=
      ⟨by decide, by decide, by simp [StartsLine, StartsWith], by simp [EndsLine, EndsWith]⟩
    -- The only line of a class that starts with a name.
    have call : IsCode (s.property ++ "Subscription?." ++ c.closeMethod ++ "()") [] := by
      refine IsInline.isCode ?_ ?_ (.append (by simp [EndsWith]) _)
      · simp only [isInline_append]
        exact ⟨⟨⟨isInline_of_isIdentifier property, by decide⟩, inline.closeMethod⟩, by decide⟩
      · exact (((startsLine_of_isIdentifier property).append _).append _).append _
    exact .gap declaration.ne_empty (.enclosed declaration (.line call .nil))

theorem tidy_actionSteps {a : ActionEntry} (writable : WritableAction a) :
    Tidy (actionSteps a) ([] :: enclosed [[]]) := by
  obtain ⟨function, params⟩ := writable
  have inlineFunction := isInline_escape function
  have signature : IsInline (signature a) := by
    refine IsInline.intercalate (by decide) fun part mem => ?_
    obtain ⟨p, here, rfl⟩ := List.mem_map.mp mem
    obtain ⟨label, bridged⟩ := params p here
    simp only [isInline_append]
    exact ⟨⟨isInline_escape label, by decide⟩,
      isInline_of_isIdentifier (isIdentifier_of_isBridged bridged)⟩
  have arguments : IsInline (arguments a) := by
    refine IsInline.intercalate (by decide) fun part mem => ?_
    obtain ⟨p, here, rfl⟩ := List.mem_map.mp mem
    have label := isInline_escape (params p here).1
    simp only [isInline_append]
    exact ⟨⟨label, by decide⟩, label⟩
  have declaration : IsCode ("func " ++ escape a.function ++ "(" ++ Swift.signature a ++
      ") \x7b") ['\x7b'] := by
    refine IsInline.isCode_append ?_ (by simp [StartsLine, StartsWith]) (by decide) (by decide)
      (by simp [EndsLine, EndsWith])
    simp only [isInline_append]
    exact ⟨⟨⟨by decide, inlineFunction⟩, by decide⟩, signature⟩
  have call : IsCode ("viewModel." ++ escape a.function ++ "(" ++ Swift.arguments a ++ ")") [] := by
    refine IsInline.isCode ?_ (by simp [StartsLine, StartsWith]) (.append (by simp [EndsWith]) _)
    simp only [isInline_append]
    exact ⟨⟨⟨⟨by decide, inlineFunction⟩, by decide⟩, arguments⟩, by decide⟩
  exact .gap declaration.ne_empty (.enclosed declaration (.line call .nil))

theorem tidy_flatMap_actionSteps {actions : List ActionEntry}
    (writable : ∀ a ∈ actions, WritableAction a) :
    Tidy (actions.flatMap actionSteps)
      (List.replicate actions.length ([] :: enclosed [[]])).flatten := by
  induction actions with
  | nil => exact .nil
  | cons a rest ih =>
    obtain ⟨first, others⟩ := List.forall_mem_cons.mp writable
    exact (tidy_actionSteps first).append (ih others)

theorem tidy_classSteps (inline : InlineNames c) (writable : Writable typeName e) :
    Tidy (classSteps c e typeName) (outline e.state.isSome e.actions.length) := by
  have actor : IsCode "@MainActor" [] :=
    IsInline.isCode (by decide) (by simp [StartsLine, StartsWith]) (by simp [EndsLine, EndsWith])
  have declaration : IsCode ("final class " ++ typeName ++ ": ObservableObject \x7b") ['\x7b'] := by
    refine IsInline.isCode_append ?_ (by simp [StartsLine, StartsWith]) (by decide) (by decide)
      (by simp [EndsLine, EndsWith])
    exact isInline_append.mpr ⟨by decide, isInline_of_isIdentifier writable.wrapper⟩
  have owned : IsCode ("private let viewModel: " ++ e.simpleName) [] := by
    refine IsInline.isCode ?_ (by simp [StartsLine, StartsWith])
      ((endsLine_of_isIdentifier writable.simple).append _)
    exact isInline_append.mpr ⟨by decide, isInline_of_isIdentifier writable.simple⟩
  have init := Tidy.gap (by simp) (tidy_initSteps inline writable)
  exact .line actor (.enclosed declaration ((((Tidy.line owned
    (tidy_stateSteps inline writable.state)).append init).append
      (tidy_deinitSteps inline writable.state)).append (tidy_flatMap_actionSteps writable.actions)))

/-- From its first attribute on, a wrapper is lines with balanced braces, each indented by the
braces open before it, without spaces at the end and without two empty ones in a row. Where the
lines and the braces stand is given by whether there is a state and by the number of actions,
whatever anything is called. -/
theorem wrapper_laid_out (rendered : renderEntry c e typeName = .ok source)
    (inline : InlineNames c) :
    ∃ lines, source.toList = (frontText c).toList ++ textOf lines ∧
      lines.head? = some "@MainActor" ∧ lines.getLast? = some "\x7d" ∧ LaidOut 0 lines ∧
      lines.map (bracesOf ·.toList) = outline e.state.isSome e.actions.length := by
  obtain ⟨checked, rfl⟩ := renderEntry_eq_ok_iff.mp rendered
  have tidy := tidy_classSteps inline (checkEntry_eq_ok_iff.mp checked)
  refine ⟨linesOf 0 (classSteps c e typeName), toList_renderSteps_wrapperSteps c e typeName, rfl,
    ?_, tidy.laidOut 0, tidy.map_bracesOf 0⟩
  have closed : classSteps c e typeName =
      (classSteps c e typeName).dropLast ++ [.line "\x7d"] := rfl
  have ended := tidy.haltOf_eq_none
  rw [closed, haltOf_append, Option.or_eq_none_iff] at ended
  rw [closed, linesOf_append ended.1, List.getLast?_append]
  rfl

/-- Every part is there, and three names are keywords. -/
theorem player_laid_out :
    let e : Entry := ⟨"com.a.Player", "Player", some ⟨"in", "State"⟩,
      [⟨"repeat", []⟩, ⟨"seek", [⟨"to", "Int"⟩, ⟨"for", "Song"⟩]⟩]⟩
    let source := renderSteps (wrapperSteps .standard e "PlayerModel") ++ "\n"
    renderEntry .standard e "PlayerModel" = .ok source ∧ InlineNames .standard ∧
      ∃ lines, source.toList = (frontText .standard).toList ++ textOf lines ∧
        lines.head? = some "@MainActor" ∧ lines.getLast? = some "\x7d" ∧ LaidOut 0 lines ∧
        lines.map (bracesOf ·.toList) = outline true 2 := by
  intro e source
  have writable : Writable "PlayerModel" e := by decide
  have rendered : renderEntry .standard e "PlayerModel" = .ok source :=
    renderEntry_eq_ok_iff.mpr ⟨checkEntry_eq_ok_iff.mpr writable, rfl⟩
  have inline : InlineNames .standard := ⟨by decide, by decide, by decide⟩
  exact ⟨rendered, inline, wrapper_laid_out rendered inline⟩

end WrapperGen.Swift
