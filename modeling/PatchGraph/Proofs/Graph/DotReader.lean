import PatchGraph.Graph.Dot

/-!
# A reader of drawings

The text of a drawing is read character by character (`scan`): outside quotes it is cut into words and marks; inside quotes a backslash
stands before a quote or a backslash that belongs to the label, and before the letter `n` where a line ends. The tokens up to a semicolon
are a statement, and braces enclose the statements of a cluster (`Sketch.ofText`). An escaped label is read as the label, whatever it
holds (`scan_escape`), so that reading goes on after the closing quote (`scan_quoted`).
-/

namespace PatchGraph.Dot

/-! ## Tokens -/

/-- A token of a drawing: a word, a label as its lines, or a mark. -/
inductive Token where
  | word (w : String)
  | label (lines : List String)
  | mark (c : Char)
  deriving DecidableEq

/-- A character of a word. -/
def isWordPart (c : Char) : Bool := c.isAlphanum || c = '_'

/-- A character that is a token of its own. -/
def isMark (c : Char) : Bool := ['\x7b', '\x7d', '[', ']', '=', ',', ';', '-', '>'].contains c

/-- Where the reader is in a text: between tokens, in a word, in a line of a label, or after a backslash in it. -/
inductive Mode where
  | between
  | word (w : List Char)
  | label (lines : List String) (line : List Char)
  | escape (lines : List String) (line : List Char)
  deriving DecidableEq

namespace Mode

/-- Read a character between tokens. -/
def start (c : Char) : Option (Mode × List Token) :=
  if c = ' ' || c = '\n' then some (.between, [])
  else if c = '"' then some (.label [] [], [])
  else if isWordPart c then some (.word [c], [])
  else if isMark c then some (.between, [.mark c])
  else none

/-- Read a character: where the reader is afterwards, and the tokens that end here. -/
def next : Mode → Char → Option (Mode × List Token)
  | .between, c => start c
  | .word w, c =>
    if isWordPart c then some (.word (w ++ [c]), []) else (start c).map fun x => (x.1, .word (String.ofList w) :: x.2)
  | .label lines line, c =>
    if c = '"' then some (.between, [.label (lines ++ [String.ofList line])])
    else if c = '\\' then some (.escape lines line, [])
    else some (.label lines (line ++ [c]), [])
  | .escape lines line, c =>
    if c = '"' || c = '\\' then some (.label lines (line ++ [c]), [])
    else if c = 'n' then some (.label (lines ++ [String.ofList line]) [], [])
    else none

end Mode

/-- Read characters. -/
def scan (m : Mode) : List Char → Option (Mode × List Token)
  | [] => some (m, [])
  | c :: rest => (m.next c).bind fun x => (scan x.1 rest).map fun y => (y.1, x.2 ++ y.2)

/-! ## Statements -/

/-- A statement of a drawing: a setting, the attributes that nodes or edges have by default, a node, or an edge. -/
inductive Statement where
  | setting (name : String) (value : Token)
  | defaults (kind : String) (attributes : List (String × Token))
  | node (name : String) (attributes : List (String × Token))
  | edge (source target : String) (attributes : List (String × Token))
  deriving DecidableEq

/-- Whether a token can be the value of a setting or of an attribute. -/
def Token.isValue : Token → Bool
  | .word _ | .label _ => true
  | .mark _ => false

/-- The attributes up to a closing bracket. -/
def attributes : List Token → Option (List (String × Token))
  | .word name :: .mark '=' :: value :: mark :: rest =>
    if value.isValue then
      match mark, rest with
      | .mark ']', [] => some [(name, value)]
      | .mark ',', rest => (attributes rest).map ((name, value) :: ·)
      | _, _ => none
    else none
  | _ => none

/-- The words that do not name a node. -/
def keywords : List String := ["graph", "node", "edge", "digraph", "subgraph", "strict"]

/-- The statement that tokens make. -/
def Statement.ofTokens : List Token → Option Statement
  | [.word name, .mark '=', value] => if value.isValue then some (.setting name value) else none
  | .word source :: .mark '-' :: .mark '>' :: .word target :: .mark '[' :: rest => (attributes rest).map (.edge source target)
  | .word name :: .mark '[' :: rest =>
    (attributes rest).map fun attributes => if keywords.contains name then .defaults name attributes else .node name attributes
  | _ => none

/-- A cluster of a drawing and its statements. -/
structure Cluster where
  name : String
  statements : List Statement := []
  deriving DecidableEq

/-- A drawing: the statements that are in no cluster, and the clusters. -/
structure Sketch where
  statements : List Statement := []
  clusters : List Cluster := []
  deriving DecidableEq

/-- A drawing that is being read: what was read, the cluster and the tokens of the statement that are being read, and whether the closing
brace was read. -/
structure Outline where
  sketch : Sketch := {}
  cluster : Option Cluster := none
  tokens : List Token := []
  closed : Bool := false
  deriving DecidableEq

namespace Outline

/-- Add statements to the cluster that is being read, or else to the drawing. -/
def add (o : Outline) (ss : List Statement) : Outline :=
  match o.cluster with
  | none => { o with sketch := { o.sketch with statements := o.sketch.statements ++ ss }, tokens := [] }
  | some c => { o with cluster := some { c with statements := c.statements ++ ss }, tokens := [] }

/-- Start to read a cluster. -/
def enter (o : Outline) : Option Outline :=
  match o.cluster, o.tokens with
  | none, [.word "subgraph", .word name] => some { o with cluster := some { name }, tokens := [] }
  | _, _ => none

/-- End the cluster that is being read, or else the drawing. -/
def leave (o : Outline) : Option Outline :=
  match o.cluster, o.tokens with
  | some c, [] => some { o with sketch := { o.sketch with clusters := o.sketch.clusters ++ [c] }, cluster := none }
  | none, [] => some { o with closed := true }
  | _, _ => none

/-- Read a token. -/
def next (o : Outline) (t : Token) : Option Outline :=
  if o.closed then none
  else if t = .mark ';' then (Statement.ofTokens o.tokens).map fun s => o.add [s]
  else if t = .mark '\x7b' then o.enter
  else if t = .mark '\x7d' then o.leave
  else some { o with tokens := o.tokens ++ [t] }

/-- Read tokens. -/
def read (o : Outline) : List Token → Option Outline
  | [] => some o
  | t :: ts => (o.next t).bind fun o => read o ts

end Outline

namespace Sketch

/-- The drawing that tokens make. -/
def ofTokens : List Token → Option Sketch
  | .word "digraph" :: .word _ :: .mark '\x7b' :: rest =>
    match Outline.read {} rest with
    | some o => if o.closed then some o.sketch else none
    | none => none
  | _ => none

/-- The drawing that a text holds. -/
def ofText (text : String) : Option Sketch :=
  match scan .between text.toList with
  | some (.between, ts) => ofTokens ts
  | _ => none

end Sketch

/-! ## What a drawing shows -/

/-- The lines of the label among attributes. -/
def labelLines (attributes : List (String × Token)) : List String :=
  match attributes.lookup "label" with
  | some (.label lines) => lines
  | _ => []

namespace Statement

/-- The name and the label of a node. -/
def node? : Statement → Option (String × List String)
  | .node name attributes => some (name, labelLines attributes)
  | _ => none

/-- The ends and the label of an edge. -/
def edge? : Statement → Option (String × String × List String)
  | .edge source target attributes => some (source, target, labelLines attributes)
  | _ => none

end Statement

namespace Sketch

/-- The nodes of a drawing: the cluster that each is in, its name and its label. -/
def nodes (d : Sketch) : List (Option String × String × List String) :=
  (d.clusters.flatMap fun c => (c.statements.filterMap Statement.node?).map (some c.name, ·))
    ++ (d.statements.filterMap Statement.node?).map (none, ·)

/-- The edges of a drawing, in a cluster or in none: the ends of each and its label. -/
def edges (d : Sketch) : List (String × String × List String) :=
  ((d.clusters.flatMap (·.statements)) ++ d.statements).filterMap Statement.edge?

end Sketch

/-! ## Reading characters -/

/-- Reading goes on from where the reader is. -/
theorem scan_after {m m' : Mode} {cs : List Char} {ts : List Token} (hcs : scan m cs = some (m', ts)) (ds : List Char) :
    scan m (cs ++ ds) = (scan m' ds).map fun x => (x.1, ts ++ x.2) := by
  induction cs generalizing m ts with
  | nil =>
    obtain ⟨rfl, rfl⟩ := Prod.mk.inj (Option.some.inj hcs)
    simp
  | cons c cs ih =>
    simp only [scan, Option.bind_eq_some_iff, Option.map_eq_some_iff] at hcs
    obtain ⟨⟨m₁, ts₁⟩, hnext, ⟨m₂, ts₂⟩, hrest, heq⟩ := hcs
    obtain ⟨rfl, rfl⟩ := Prod.mk.inj heq
    rw [List.cons_append, scan, hnext, Option.bind_some, ih hrest, Option.map_map]
    simp [Function.comp_def]

theorem scan_append {m m' m'' : Mode} {cs ds : List Char} {ts us : List Token} (hcs : scan m cs = some (m', ts))
    (hds : scan m' ds = some (m'', us)) : scan m (cs ++ ds) = some (m'', ts ++ us) := by
  rw [scan_after hcs, hds, Option.map_some]

/-- A word goes on. -/
theorem scan_word {cs : List Char} (h : ∀ c ∈ cs, isWordPart c = true) (w : List Char) :
    scan (.word w) cs = some (.word (w ++ cs), []) := by
  induction cs generalizing w with
  | nil => rw [scan, List.append_nil]
  | cons c cs ih =>
    rw [List.forall_mem_cons] at h
    rw [scan, Mode.next, if_pos h.1, Option.bind_some, ih h.2, List.append_assoc]
    rfl

/-- One character of a label as it is written. -/
def escapeChar (c : Char) : List Char := if c = '\\' ∨ c = '"' then ['\\', c] else [c]

/-- The quotes are escaped after the backslashes, so that no backslash is escaped twice. -/
theorem toList_escape (label : String) : (escape label).toList = label.toList.flatMap escapeChar := by
  rw [escape, String.toList_ofList, replaceChar, replaceChar, List.flatMap_assoc]
  congr 1
  funext c
  by_cases hbackslash : c = '\\'
  · subst hbackslash
    rfl
  · by_cases hquote : c = '"'
    · subst hquote
      rfl
    · simp [escapeChar, hbackslash, hquote]

/-- A character of a label is read as it was before it was escaped. -/
theorem scan_escapeChar (lines : List String) (line : List Char) (c : Char) :
    scan (.label lines line) (escapeChar c) = some (.label lines (line ++ [c]), []) := by
  by_cases hbackslash : c = '\\'
  · subst hbackslash
    rfl
  · by_cases hquote : c = '"'
    · subst hquote
      rfl
    · simp [escapeChar, hbackslash, hquote, scan, Mode.next]

/-- An escaped label is read as the label. -/
theorem scan_escape (lines : List String) (line : List Char) (label : String) :
    scan (.label lines line) (escape label).toList = some (.label lines (line ++ label.toList), []) := by
  rw [toList_escape]
  induction label.toList generalizing line with
  | nil => rw [List.flatMap_nil, scan, List.append_nil]
  | cons c cs ih =>
    rw [List.flatMap_cons, ← List.singleton_append, ← List.append_assoc line]
    exact scan_append (scan_escapeChar lines line c) (ih (line ++ [c]))

/-- A label in quotes is one token, and what comes after the closing quote is read as if nothing stood before it. -/
theorem scan_quoted (label : String) (rest : List Char) : scan .between ('"' :: (escape label).toList ++ '"' :: rest)
    = (scan .between rest).map fun x => (x.1, .label [label] :: x.2) := by
  have hopen : scan .between ['"'] = some (.label [] [], []) := rfl
  have hclose : scan (.label [] ([] ++ label.toList)) ['"'] = some (.between, [.label [String.ofList label.toList]]) := rfl
  rw [String.ofList_toList] at hclose
  have hall := scan_after (scan_append (scan_append hopen (scan_escape [] [] label)) hclose) rest
  simpa using hall

/-- Two labels in quotes, with the end of a line between them. -/
theorem scan_quoted_lines (first second : String) (rest : List Char) :
    scan .between ('"' :: (escape first).toList ++ '\\' :: 'n' :: (escape second).toList ++ '"' :: rest)
      = (scan .between rest).map fun x => (x.1, .label [first, second] :: x.2) := by
  have hopen : scan .between ['"'] = some (.label [] [], []) := rfl
  have hline : scan (.label [] ([] ++ first.toList)) ['\\', 'n'] = some (.label [String.ofList first.toList] [], []) := rfl
  have hclose : scan (.label [first] ([] ++ second.toList)) ['"']
      = some (.between, [.label [first, String.ofList second.toList]]) := rfl
  rw [String.ofList_toList] at hline hclose
  have hall := scan_after (scan_append (scan_append (scan_append (scan_append hopen (scan_escape [] [] first)) hline)
    (scan_escape _ _ second)) hclose) rest
  simpa using hall

/-! ## Reading tokens -/

/-- A token that does not end a statement. -/
def Token.isInner (t : Token) : Bool := t ≠ .mark ';' && t ≠ .mark '\x7b' && t ≠ .mark '\x7d'

theorem isInner_of_isValue {t : Token} (h : t.isValue = true) : t.isInner = true := by
  cases t with
  | word w => rfl
  | label lines => rfl
  | mark c => cases h

/-- The tokens of attributes, up to the closing bracket. -/
def attributeTokens : List (String × Token) → List Token
  | [] => []
  | [(name, value)] => [.word name, .mark '=', value, .mark ']']
  | (name, value) :: rest => .word name :: .mark '=' :: value :: .mark ',' :: attributeTokens rest

/-- Attributes that can be written: there are some, and each has a value. -/
def AreWritable (as : List (String × Token)) : Prop := as ≠ [] ∧ ∀ a ∈ as, a.2.isValue = true

/-- Attributes are read from their tokens. -/
theorem attributes_attributeTokens {as : List (String × Token)} (h : AreWritable as) : attributes (attributeTokens as) = some as := by
  obtain ⟨hne, hvalues⟩ := h
  fun_induction attributeTokens as with
  | case1 => exact absurd rfl hne
  | case2 name value => simp [attributes, hvalues (name, value) List.mem_cons_self]
  | case3 name value rest hrest ih =>
    rw [List.forall_mem_cons] at hvalues
    simp [attributes, hvalues.1, ih hrest hvalues.2]

theorem isInner_attributeTokens {as : List (String × Token)} (h : ∀ a ∈ as, a.2.isValue = true) :
    ∀ t ∈ attributeTokens as, t.isInner = true := by
  fun_induction attributeTokens as with
  | case1 => exact List.forall_mem_nil _
  | case2 name value =>
    simp only [List.forall_mem_cons]
    exact ⟨rfl, rfl, isInner_of_isValue (h (name, value) List.mem_cons_self), rfl, List.forall_mem_nil _⟩
  | case3 name value rest _ ih =>
    rw [List.forall_mem_cons] at h
    simp only [List.forall_mem_cons]
    exact ⟨rfl, rfl, isInner_of_isValue h.1, rfl, ih h.2⟩

namespace Statement

/-- The tokens of a statement. -/
def tokens : Statement → List Token
  | .setting name value => [.word name, .mark '=', value]
  | .defaults kind as => .word kind :: .mark '[' :: attributeTokens as
  | .node name as => .word name :: .mark '[' :: attributeTokens as
  | .edge source target as => .word source :: .mark '-' :: .mark '>' :: .word target :: .mark '[' :: attributeTokens as

/-- A statement that can be written: what it sets has values, and the name of a node is no keyword. -/
def IsWritable : Statement → Prop
  | .setting _ value => value.isValue = true
  | .defaults kind as => kind ∈ keywords ∧ AreWritable as
  | .node name as => name ∉ keywords ∧ AreWritable as
  | .edge _ _ as => AreWritable as

/-- A statement is read from its tokens. -/
theorem ofTokens_tokens {s : Statement} (h : s.IsWritable) : ofTokens s.tokens = some s := by
  cases s with
  | setting name value => exact if_pos h
  | defaults kind as =>
    obtain ⟨hkind, has⟩ := h
    simp [tokens, ofTokens, attributes_attributeTokens has, hkind]
  | node name as =>
    obtain ⟨hname, has⟩ := h
    simp [tokens, ofTokens, attributes_attributeTokens has, hname]
  | edge source target as => simp [tokens, ofTokens, attributes_attributeTokens h]

theorem isInner_of_mem_tokens {s : Statement} (h : s.IsWritable) : ∀ t ∈ s.tokens, t.isInner = true := by
  cases s with
  | setting name value =>
    simp only [tokens, List.forall_mem_cons]
    exact ⟨rfl, rfl, isInner_of_isValue h, List.forall_mem_nil _⟩
  | defaults kind as => simpa [tokens, Token.isInner] using isInner_attributeTokens h.2.2
  | node name as => simpa [tokens, Token.isInner] using isInner_attributeTokens h.2.2
  | edge source target as => simpa [tokens, Token.isInner] using isInner_attributeTokens h.2

end Statement

namespace Outline

theorem read_append (o : Outline) (ts us : List Token) : o.read (ts ++ us) = (o.read ts).bind fun o => o.read us := by
  induction ts generalizing o with
  | nil => rfl
  | cons t ts ih =>
    simp only [List.cons_append, read, Option.bind_assoc, ih]

/-- The tokens of a statement are kept until it ends. -/
theorem read_inner (d : Sketch) (c : Option Cluster) (before : List Token) {ts : List Token} (h : ∀ t ∈ ts, t.isInner = true) :
    read ⟨d, c, before, false⟩ ts = some ⟨d, c, before ++ ts, false⟩ := by
  induction ts generalizing before with
  | nil => rw [read, List.append_nil]
  | cons t ts ih =>
    rw [List.forall_mem_cons] at h
    have hinner := h.1
    simp only [Token.isInner, Bool.and_eq_true, decide_eq_true_eq] at hinner
    rw [read, next, if_neg Bool.false_ne_true, if_neg hinner.1.1, if_neg hinner.1.2, if_neg hinner.2, Option.bind_some, ih _ h.2,
      List.append_assoc, List.singleton_append]

/-- The tokens of a statement and a semicolon add the statement. -/
theorem read_statement (d : Sketch) (c : Option Cluster) {s : Statement} (h : s.IsWritable) :
    read ⟨d, c, [], false⟩ (s.tokens ++ [.mark ';']) = some (add ⟨d, c, [], false⟩ [s]) := by
  rw [read_append, read_inner d c [] (Statement.isInner_of_mem_tokens h), Option.bind_some, List.nil_append, read, next,
    if_neg Bool.false_ne_true, if_pos rfl, Statement.ofTokens_tokens h]
  cases c <;> rfl

end Outline

end PatchGraph.Dot
