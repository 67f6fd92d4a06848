import Cxpr.Document.Lower

/-! The types beside the names of inputs and outputs: lowering keeps them in arrays of their own, and what it appends to
    each is compared with what the document declares. -/

namespace Cxpr.Document
variable {D : Type}

/-- A declared name with the type written there. A field is one of a struct input block. -/
structure Declared where
  name : Text
  type : Option Text
  field : Bool

def listed (names type : Option Text) : List Declared :=
  (strtok (names.getD []) ',').map fun token => ⟨lowerTrim token, type, false⟩

def fields (root : Text) (children : List (Node D)) : List Declared :=
  children.map fun child => ⟨root ++ '.' :: child.name.getD [], child.value, true⟩

mutual

def declaredInputs : Node D → List Declared
  | ⟨kind, _, name, value, _, expression, children⟩ =>
    match kind with
    | .file | .paramBlock | .stateBlock | .outputBlock | .initialStateUpdate => allDeclaredInputs children
    | .inputBlock => if (name.getD []).isEmpty then allDeclaredInputs children else fields (name.getD []) children
    | .inputDecl => if expression.isSome then [] else listed name value
    | .hostBlock | .hostField | .modelDecl | .use | .paramDecl | .functionDecl | .functionBody | .localBinding
    | .returned | .stateDecl | .stateUpdate | .binding | .outputDecl | .outputStateUpdate | .anonymousOutput
    | .metadata => []

def allDeclaredInputs : List (Node D) → List Declared
  | [] => []
  | node :: nodes => declaredInputs node ++ allDeclaredInputs nodes

end

mutual

def declaredOutputs : Node D → List Declared
  | ⟨kind, _, name, value, _, _, children⟩ =>
    match kind with
    | .file | .paramBlock | .stateBlock | .outputBlock | .initialStateUpdate => allDeclaredOutputs children
    | .inputBlock => if (name.getD []).isEmpty then allDeclaredOutputs children else []
    | .outputDecl | .outputStateUpdate => listed name value
    | .hostBlock | .hostField | .modelDecl | .use | .inputDecl | .paramDecl | .functionDecl | .functionBody
    | .localBinding | .returned | .stateDecl | .stateUpdate | .binding | .anonymousOutput | .metadata => []

def allDeclaredOutputs : List (Node D) → List Declared
  | [] => []
  | node :: nodes => declaredOutputs node ++ allDeclaredOutputs nodes

end

def declare (unique : Bool) (ds : List Declared) (d : Declared) : List Declared :=
  if unique && (ds.map (·.name)).contains d.name then ds else ds ++ [d]

def firsts (ds : List Declared) : List Declared := ds.foldl (declare true) []

def Aligned (list : TypedNames) (ds : List Declared) : Prop :=
  list.names = ds.map (·.name) ∧ ∀ (i : Nat) (d : Declared), ds[i]? = some d →
    ∃ info, parseDeclType d.type = some info ∧ list.types[i]? = some (some (info.declared, info.element))

/-- What the arrays hold of a declaration when they hold something: nothing was written for a field. -/
def entry (d : Declared) : Option (DeclType × ElementType) :=
  if d.field then none else (parseDeclType d.type).map fun info => (info.declared, info.element)

structure Entries (list : TypedNames) (ds : List Declared) : Prop where
  names : list.names = ds.map (·.name)
  types : list.types = (ds.take list.types.length).map entry
  fields : ∀ d ∈ ds.drop list.types.length, d.field = true
  typed : ∀ d ∈ ds, d.field = false → (parseDeclType d.type).isSome = true

variable {list list' : TypedNames} {ds : List Declared}

theorem Entries.nil : Entries {} [] := ⟨rfl, rfl, by simp, by simp⟩

theorem Entries.length_le (h : Entries list ds) : list.types.length ≤ ds.length := by
  have hlen := congrArg List.length h.types
  rw [List.length_map, List.length_take] at hlen
  omega

theorem Entries.filled (h : Entries list ds) :
    list.types ++ List.replicate (list.names.length - list.types.length) none = ds.map entry := by
  have hlen : list.names.length = ds.length := by rw [h.names, List.length_map]
  have hrest : (ds.drop list.types.length).map entry = List.replicate (list.names.length - list.types.length) none := by
    rw [List.eq_replicate_iff]
    refine ⟨by simp [hlen], fun e he => ?_⟩
    obtain ⟨d, hd, rfl⟩ := List.mem_map.mp he
    rw [entry, if_pos (h.fields d hd)]
  have hfirst := h.types
  calc list.types ++ List.replicate (list.names.length - list.types.length) none
      = (ds.take list.types.length).map entry ++ (ds.drop list.types.length).map entry := by rw [← hfirst, hrest]
    _ = ds.map entry := by rw [← List.map_append, List.take_append_drop]

theorem Entries.append_field (h : Entries list ds) {d : Declared} (hd : d.field = true) :
    Entries { list with names := list.names ++ [d.name] } (ds ++ [d]) := by
  have hle := h.length_le
  refine ⟨by simp [h.names], ?_, ?_, ?_⟩
  · rw [List.take_append_of_le_length hle]
    exact h.types
  · intro e he
    rw [List.drop_append_of_le_length hle, List.mem_append, List.mem_singleton] at he
    rcases he with he | rfl
    · exact h.fields e he
    · exact hd
  · intro e he hfield
    rcases List.mem_append.mp he with he | he
    · exact h.typed e he hfield
    · rw [List.mem_singleton.mp he, hd] at hfield
      exact Bool.noConfusion hfield

theorem Entries.append_typed (h : Entries list ds) {new : List Declared} {info : TypeInfo}
    (hnew : ∀ d ∈ new, d.field = false ∧ parseDeclType d.type = some info) :
    Entries ⟨list.names ++ new.map (·.name), list.types ++ List.replicate (list.names.length - list.types.length) none ++
      List.replicate new.length (some (info.declared, info.element))⟩ (ds ++ new) := by
  have hentries : List.replicate new.length (some (info.declared, info.element)) = new.map entry := by
    rw [eq_comm, List.eq_replicate_iff]
    refine ⟨by simp, fun e he => ?_⟩
    obtain ⟨d, hd, rfl⟩ := List.mem_map.mp he
    obtain ⟨hfield, htype⟩ := hnew d hd
    rw [entry, hfield, if_neg (by simp), htype, Option.map_some]
  rw [h.filled, hentries, ← List.map_append]
  refine ⟨by simp [h.names], ?_, by simp, ?_⟩
  · rw [List.length_map, List.take_length]
  · intro e he hfield
    rcases List.mem_append.mp he with he | he
    · exact h.typed e he hfield
    · rw [(hnew e he).2]
      rfl

theorem present_eq_ok {α : Type} {o : Option α} {a : α} (h : present o = .ok a) : o = some a := by
  cases o with
  | none => cases h
  | some b =>
    cases h
    rfl

theorem appendNameList_declared {unique : Bool} {text : Text} {type : Option Text} {names names' : List Text}
    (h : TypedNames.appendNameList unique names text = .ok names') (hnames : names = ds.map (·.name)) :
    ∃ new, (listed (some text) type).foldl (declare unique) ds = ds ++ new ∧ names' = names ++ new.map (·.name) ∧
      ∀ d ∈ new, d.field = false ∧ d.type = type := by
  unfold TypedNames.appendNameList at h
  rw [listed, Option.getD_some]
  generalize strtok text ',' = tokens at h ⊢
  induction tokens generalizing names ds with
  | nil =>
    cases h
    exact ⟨[], by simp, by simp, by simp⟩
  | cons token tokens ih =>
    rw [List.foldlM_cons] at h
    obtain ⟨middle, hmiddle, h⟩ := bind_eq_ok.mp h
    rw [List.map_cons, List.foldl_cons, declare]
    dsimp only at hmiddle ⊢
    split at hmiddle
    · cases hmiddle
    · rw [← hnames]
      split at hmiddle
      · rename_i hold
        cases hmiddle
        rw [if_pos hold]
        exact ih hnames h
      · rename_i hnew
        cases hmiddle
        rw [if_neg hnew]
        obtain ⟨new, hfold, hlist, hall⟩ := @ih (ds ++ [⟨lowerTrim token, type, false⟩]) _ (by simp [hnames]) h
        refine ⟨⟨lowerTrim token, type, false⟩ :: new, by simp [hfold], by simp [hlist], ?_⟩
        exact List.forall_mem_cons.mpr ⟨⟨rfl, rfl⟩, hall⟩

theorem append_entries {unique : Bool} {names type : Option Text} (h : list.append names unique type = .ok list')
    (he : Entries list ds) : Entries list' ((listed names type).foldl (declare unique) ds) := by
  unfold TypedNames.append at h
  obtain ⟨info, hinfo, h⟩ := bind_eq_ok.mp h
  obtain ⟨text, htext, h⟩ := bind_eq_ok.mp h
  obtain ⟨names', hnames', h⟩ := bind_eq_ok.mp h
  have hinfo := present_eq_ok hinfo
  obtain rfl := present_eq_ok htext
  obtain ⟨new, hfold, rfl, hnew⟩ := @appendNameList_declared ds unique text type _ _ hnames' he.names
  rw [hfold]
  split at h
  · rename_i hlen
    cases h
    obtain rfl : new = [] := by simpa using hlen
    simpa using he
  · cases h
    have happend := he.append_typed fun d hd => ⟨(hnew d hd).1, (hnew d hd).2 ▸ hinfo⟩
    simpa using happend

/-! ### What the other declarations leave -/

def SameTypes (model model' : Model D) : Prop := model'.inputs = model.inputs ∧ model'.outputs = model.outputs

def Keeps (model : Model D) (act : Lowered (Model D)) : Prop := ∀ model', act = .ok model' → SameTypes model model'

namespace Keeps
variable {model : Model D}

theorem ok {model' : Model D} (h : SameTypes model model') : Keeps model (.ok model') := by
  rintro _ ⟨⟩
  exact h

theorem error {e : Option Error} : Keeps model (.error e) := by
  rintro _ ⟨⟩

theorem ite {c : Prop} [Decidable c] {x y : Lowered (Model D)} (hx : Keeps model x) (hy : Keeps model y) :
    Keeps model (if c then x else y) := by
  split
  · exact hx
  · exact hy

theorem bind {α : Type} {x : Lowered α} {f : α → Lowered (Model D)} (h : ∀ a, Keeps model (f a)) :
    Keeps model (x >>= f) := by
  intro model' hrun
  obtain ⟨a, -, hrun⟩ := bind_eq_ok.mp hrun
  exact h a model' hrun

theorem andThen {x : Lowered (Model D)} {f : Model D → Lowered (Model D)} (hx : Keeps model x)
    (hf : ∀ m, Keeps m (f m)) : Keeps model (x >>= f) := by
  intro model' hrun
  obtain ⟨middle, hmiddle, hrun⟩ := bind_eq_ok.mp hrun
  obtain ⟨hin, hout⟩ := hx middle hmiddle
  obtain ⟨hin', hout'⟩ := hf middle model' hrun
  exact ⟨hin'.trans hin, hout'.trans hout⟩

theorem of_same {m : Model D} {x : Lowered (Model D)} (h : SameTypes model m) (hx : Keeps m x) : Keeps model x := by
  intro model' hrun
  obtain ⟨hin, hout⟩ := hx model' hrun
  exact ⟨hin.trans h.1, hout.trans h.2⟩

theorem foldlM {α : Type} {step : Model D → α → Lowered (Model D)} (hstep : ∀ m a, Keeps m (step m a)) (as : List α) :
    Keeps model (as.foldlM step model) := by
  induction as generalizing model with
  | nil => exact ok ⟨rfl, rfl⟩
  | cons a as ih =>
    rw [List.foldlM_cons]
    exact andThen (hstep model a) fun m => ih

end Keeps

namespace Model
variable {lib : Library D} (model : Model D) (node : Node D)

theorem keeps_constant (isCallParam : Bool) : Keeps model (model.appendConstant node isCallParam) :=
  .bind fun _ => .bind fun _ => .bind fun _ => .bind fun _ => .ok ⟨rfl, rfl⟩

theorem keeps_binding (kind : BindingKind) : Keeps model (model.appendBinding kind node) :=
  .bind fun _ => .bind fun _ => .ite .error (.ite .error (.ok ⟨rfl, rfl⟩))

theorem keeps_appendMetadata (name target : Text) (kind : MetadataTarget) :
    Keeps model (model.appendMetadata name target kind node) := .bind fun _ => .ok ⟨rfl, rfl⟩

theorem keeps_metadata (name : Text) (kind : MetadataTarget) :
    Keeps model (model.lowerMetadataChildren node name kind) :=
  .foldlM (fun m child => m.keeps_appendMetadata child _ _ _) _

theorem keeps_modelDecl : Keeps model (model.lowerModelDecl node) := by
  have hname : SameTypes model { model with name := some (node.name.getD []) } := ⟨rfl, rfl⟩
  refine .of_same hname (.foldlM (fun m child => ?_) _)
  exact (m.keeps_appendMetadata child _ _ _).andThen fun m => .bind fun _ => .bind fun _ => .ok ⟨rfl, rfl⟩

theorem keeps_appendUses (items base : Text) : Keeps model (model.appendUses items base) := by
  refine .foldlM (fun m item => ?_) _
  exact .ite .error (.ok ⟨rfl, rfl⟩)

theorem keeps_useClause (text : Text) : Keeps model (model.lowerUseClause text) := by
  have hclause : ∀ clause : Text × Option Text, Keeps model
      (if isUsePath clause.1 then pure { model with uses := model.uses ++ [clause] } else loweringError "Invalid use name") :=
    fun _ => .ite (.ok ⟨rfl, rfl⟩) .error
  unfold lowerUseClause
  dsimp only
  split
  · exact .bind hclause
  · exact .ite (.bind hclause) (.bind hclause)

theorem keeps_useGroup (text : Text) : Keeps model (model.lowerUseGroup text) := by
  unfold lowerUseGroup
  split
  · exact .error
  split
  · exact .error
  · exact .ite (model.keeps_appendUses _ _) .error

theorem keeps_use : Keeps model (model.lowerUse node) := by
  refine .bind fun text => .ite (model.keeps_useGroup _) ?_
  split
  · exact .ite (model.keeps_appendUses _ _) .error
  · exact model.keeps_useClause _

theorem keeps_recordFunction (signature : Option Text) (fields : Lowered (List (RecordField D))) :
    Keeps model (model.appendRecordFunction signature fields) :=
  .bind fun _ => .bind fun _ => .bind fun _ => .ok ⟨rfl, rfl⟩

theorem keeps_function : Keeps model (model.appendFunction lib node) :=
  .bind fun _ => .bind fun _ => .ite (model.keeps_recordFunction _ _) (.ok ⟨rfl, rfl⟩)

theorem keeps_blockFunction : Keeps model (model.appendBlockFunction lib node) := by
  refine .ite .error (.bind fun aliases => ?_)
  split
  · exact .error
  · exact .ite (.bind fun _ => .bind fun _ => .ok ⟨rfl, rfl⟩) (.bind fun _ => model.keeps_recordFunction _ _)

end Model

/-! ### What a node appends -/

def Appends (model : Model D) (act : Lowered (Model D)) (ins outs : List Declared) : Prop :=
  ∀ model', act = .ok model' → ∀ ds es, Entries model.inputs ds → Entries model.outputs es →
    Entries model'.inputs (ds ++ ins) ∧ Entries model'.outputs (outs.foldl (declare true) es)

theorem Keeps.appends {model : Model D} {act : Lowered (Model D)} (h : Keeps model act) : Appends model act [] [] := by
  intro model' hrun ds es hin hout
  obtain ⟨hsameIn, hsameOut⟩ := h model' hrun
  rw [List.append_nil, hsameIn, hsameOut]
  exact ⟨hin, hout⟩

theorem foldl_declare_false (ds new : List Declared) : new.foldl (declare false) ds = ds ++ new := by
  induction new generalizing ds with
  | nil => simp
  | cons d new ih => simp [declare, ih]

namespace Appends
variable {model : Model D}

variable {ins outs : List Declared} {x : Lowered (Model D)}

theorem error {e : Option Error} : Appends model (.error e) ins outs := by
  rintro _ ⟨⟩

theorem ite {c : Prop} [Decidable c] {y : Lowered (Model D)} (hx : Appends model x ins outs)
    (hy : Appends model y ins outs) : Appends model (if c then x else y) ins outs := by
  split
  · exact hx
  · exact hy

theorem andThen {x : Lowered (Model D)} {f : Model D → Lowered (Model D)} {ins ins' outs outs' : List Declared}
    (hx : Appends model x ins outs) (hf : ∀ m, Appends m (f m) ins' outs') :
    Appends model (x >>= f) (ins ++ ins') (outs ++ outs') := by
  intro model' hrun ds es hin hout
  obtain ⟨middle, hmiddle, hrun⟩ := bind_eq_ok.mp hrun
  obtain ⟨hin₁, hout₁⟩ := hx middle hmiddle ds es hin hout
  obtain ⟨hin₂, hout₂⟩ := hf middle model' hrun _ _ hin₁ hout₁
  rw [List.append_assoc] at hin₂
  rw [List.foldl_append]
  exact ⟨hin₂, hout₂⟩

theorem thenKeeps {f : Model D → Lowered (Model D)}
    (hx : Appends model x ins outs) (hf : ∀ m, Keeps m (f m)) : Appends model (x >>= f) ins outs := by
  have h := hx.andThen fun m => (hf m).appends
  rwa [List.append_nil, List.append_nil] at h

theorem afterKeeps {f : Model D → Lowered (Model D)}
    (hx : Keeps model x) (hf : ∀ m, Appends m (f m) ins outs) : Appends model (x >>= f) ins outs :=
  hx.appends.andThen hf

theorem inputNames (names type : Option Text) {f : TypedNames → Lowered (Model D)}
    (hf : ∀ list, Keeps { model with inputs := list } (f list)) :
    Appends model (model.inputs.append names false type >>= f) (listed names type) [] := by
  intro model' hrun ds es hin hout
  obtain ⟨list, hlist, hrun⟩ := bind_eq_ok.mp hrun
  obtain ⟨hsameIn, hsameOut⟩ := hf list model' hrun
  rw [hsameIn, hsameOut, ← foldl_declare_false]
  exact ⟨append_entries hlist hin, hout⟩

theorem outputNames (names type : Option Text) {f : TypedNames → Lowered (Model D)}
    (hf : ∀ list, Keeps { model with outputs := list } (f list)) :
    Appends model (model.outputs.append names true type >>= f) [] (listed names type) := by
  intro model' hrun ds es hin hout
  obtain ⟨list, hlist, hrun⟩ := bind_eq_ok.mp hrun
  obtain ⟨hsameIn, hsameOut⟩ := hf list model' hrun
  rw [List.append_nil, hsameIn, hsameOut]
  exact ⟨hin, append_entries hlist hout⟩

end Appends

namespace Model
variable {lib : Library D} (model : Model D)

theorem appends_structInputBlock (node : Node D) :
    Appends model (model.appendStructInputBlock node) (fields (node.name.getD []) node.children) [] := by
  unfold appendStructInputBlock
  dsimp only
  refine .ite .error ?_
  unfold fields
  induction node.children generalizing model with
  | nil =>
    rintro _ ⟨⟩ ds es hin hout
    simpa using ⟨hin, hout⟩
  | cons child children ih =>
    rw [List.foldlM_cons, List.map_cons]
    refine @Appends.andThen D model _ _ [_] _ [] _ (.ite .error ?_) ih
    rintro _ ⟨⟩ ds es hin hout
    exact ⟨@Entries.append_field _ _ hin ⟨node.name.getD [] ++ '.' :: child.name.getD [], child.value, true⟩ rfl, hout⟩

theorem appends_output (node : Node D) : Appends model (model.lowerOutput node) [] (listed node.name node.value) := by
  have houtputs : ∀ m : Model D, Appends m
      (m.outputs.append node.name true node.value >>= fun list =>
        if node.expression.isSome || !node.children.isEmpty then
          { m with outputs := list }.lowerMetadataChildren node "output".toList .output
        else pure { m with outputs := list }) [] (listed node.name node.value) :=
    fun m => .outputNames _ _ fun list => .ite (keeps_metadata _ _ _ _) (.ok ⟨rfl, rfl⟩)
  refine .ite .error (.ite ?_ ?_)
  · exact .afterKeeps (model.keeps_binding _ _) houtputs
  · exact .afterKeeps (.ok ⟨rfl, rfl⟩) houtputs

mutual

theorem appends_node (model : Model D) : ∀ node : Node D,
    Appends model (lowerNode lib model node) (declaredInputs node) (declaredOutputs node)
  | ⟨kind, span, name, value, text, expression, children⟩ => by
    cases kind with
    | file | paramBlock | stateBlock | outputBlock => exact appends_children model children
    | inputBlock =>
      rw [lowerNode, declaredInputs, declaredOutputs]
      split
      · exact appends_children model children
      · exact model.appends_structInputBlock _
    | hostBlock =>
      rw [lowerNode, declaredInputs, declaredOutputs]
      refine Keeps.appends (.bind fun block => ?_)
      exact .ok ⟨rfl, rfl⟩
    | modelDecl => exact (model.keeps_modelDecl _).appends
    | use => exact (model.keeps_use _).appends
    | functionDecl => exact (Keeps.ite (model.keeps_function _) (model.keeps_blockFunction _)).appends
    | inputDecl =>
      rw [lowerNode, declaredInputs, declaredOutputs]
      split
      · exact ((model.keeps_constant _ _).andThen fun m => m.keeps_metadata _ _ _).appends
      · exact .inputNames _ _ fun _ => .ok ⟨rfl, rfl⟩
    | paramDecl => exact ((model.keeps_constant _ _).andThen fun m => m.keeps_metadata _ _ _).appends
    | stateDecl | binding => exact ((model.keeps_binding _ _).andThen fun m => m.keeps_metadata _ _ _).appends
    | stateUpdate => exact (model.keeps_binding _ _).appends
    | initialStateUpdate => exact (appends_children model children).thenKeeps fun m => m.keeps_binding _ _
    | outputStateUpdate => exact .afterKeeps (model.keeps_binding _ _) fun m => .outputNames _ _ fun _ => .ok ⟨rfl, rfl⟩
    | outputDecl => exact model.appends_output _
    | anonymousOutput =>
      rw [lowerNode, declaredInputs, declaredOutputs]
      refine Keeps.appends (.bind fun text => .bind fun expression => ?_)
      exact .ok ⟨rfl, rfl⟩
    | hostField | metadata | functionBody | localBinding | returned => exact .error

theorem appends_children (model : Model D) : ∀ nodes : List (Node D),
    Appends model (lowerChildren lib model nodes) (allDeclaredInputs nodes) (allDeclaredOutputs nodes)
  | [] => (Keeps.ok ⟨rfl, rfl⟩).appends
  | node :: nodes => (appends_node model node).andThen fun m => appends_children m nodes

end

end Model

def TypesAligned (root : Node D) (model : Model D) : Prop :=
  Aligned model.inputs (declaredInputs root) ∧ Aligned model.outputs (firsts (declaredOutputs root))

theorem entries_lowered {lib : Model.Library D} {root : Node D} {model : Model D} (h : lowerModel lib root = .ok model) :
    Entries model.inputs (declaredInputs root) ∧ Entries model.outputs (firsts (declaredOutputs root)) := by
  unfold lowerModel at h
  cases hnode : Model.lowerNode lib {} root with
  | error e =>
    rw [hnode] at h
    cases h
  | ok lowered =>
    rw [hnode] at h
    cases h
    exact Model.appends_node {} root model hnode [] [] Entries.nil Entries.nil

theorem Entries.aligned (h : Entries list ds) (hfield : ∀ d ∈ ds, d.field = false) : Aligned list ds := by
  refine ⟨h.names, fun i d hi => ?_⟩
  have hmem := List.mem_of_getElem? hi
  have hlen : ds.length ≤ list.types.length := by
    by_contra hlt
    rw [Nat.not_le] at hlt
    have hrest : ds[list.types.length] ∈ ds.drop list.types.length := by
      rw [List.drop_eq_getElem_cons hlt]
      exact List.mem_cons_self ..
    have hfirst := h.fields _ hrest
    rw [hfield _ (List.getElem_mem hlt)] at hfirst
    exact Bool.noConfusion hfirst
  obtain ⟨info, hinfo⟩ := Option.isSome_iff_exists.mp (h.typed d hmem (hfield d hmem))
  refine ⟨info, hinfo, ?_⟩
  rw [h.types, List.take_of_length_le hlen, List.getElem?_map, hi, Option.map_some, entry, hfield d hmem,
    if_neg (by simp), hinfo, Option.map_some]

theorem Entries.not_field (h : Entries list ds) (haligned : Aligned list ds) : ∀ d ∈ ds, d.field = false := by
  intro d hd
  by_contra hfield
  rw [Bool.not_eq_false] at hfield
  obtain ⟨i, hi⟩ := List.mem_iff_getElem?.mp hd
  obtain ⟨info, -, hentry⟩ := haligned.2 i d hi
  rw [h.types, List.getElem?_map] at hentry
  obtain ⟨e, he, hentry⟩ := Option.map_eq_some_iff.mp hentry
  obtain rfl : e = d := by
    rw [List.getElem?_take] at he
    split at he
    · exact Option.some.inj (he.symm.trans hi)
    · cases he
  rw [entry, hfield, if_pos rfl] at hentry
  cases hentry

mutual

theorem output_not_field : ∀ node : Node D, ∀ d ∈ declaredOutputs node, d.field = false
  | ⟨kind, _, name, value, _, _, children⟩ => by
    have hlisted : ∀ d ∈ listed name value, d.field = false := by
      intro d hd
      obtain ⟨_, -, rfl⟩ := List.mem_map.mp hd
      rfl
    cases kind with
    | file | paramBlock | stateBlock | outputBlock | initialStateUpdate => exact outputs_not_field children
    | inputBlock =>
      rw [declaredOutputs]
      split
      · exact outputs_not_field children
      · simp
    | outputDecl | outputStateUpdate => exact hlisted
    | _ => simp [declaredOutputs]

theorem outputs_not_field : ∀ nodes : List (Node D), ∀ d ∈ allDeclaredOutputs nodes, d.field = false
  | [] => by simp [allDeclaredOutputs]
  | node :: nodes => by
    rw [allDeclaredOutputs]
    intro d hd
    rcases List.mem_append.mp hd with hd | hd
    · exact output_not_field node d hd
    · exact outputs_not_field nodes d hd

end

theorem mem_firsts {d : Declared} (h : d ∈ firsts ds) : d ∈ ds := by
  have hfold : ∀ (new seen : List Declared), d ∈ new.foldl (declare true) seen → d ∈ seen ∨ d ∈ new := by
    intro new
    induction new with
    | nil => exact fun _ h => .inl h
    | cons e new ih =>
      intro seen hd
      rcases ih _ hd with hd | hd
      · unfold declare at hd
        split at hd
        · exact .inl hd
        · rcases List.mem_append.mp hd with hd | hd
          · exact .inl hd
          · exact .inr (by simp_all)
      · exact .inr (List.mem_cons_of_mem e hd)
  simpa using hfold ds [] h

/-- The arrays go with the names exactly when no field of a struct input block is lowered. -/
theorem typesAligned_iff {lib : Model.Library D} {root : Node D} {model : Model D} (h : lowerModel lib root = .ok model) :
    TypesAligned root model ↔ ∀ d ∈ declaredInputs root, d.field = false := by
  obtain ⟨hin, hout⟩ := entries_lowered h
  refine ⟨fun haligned => hin.not_field haligned.1, fun hfield => ⟨hin.aligned hfield, hout.aligned fun d hd => ?_⟩⟩
  exact output_not_field root d (mem_firsts hd)

def spanOf (line offset first last : Nat) : SourceSpan := ⟨⟨offset, line, first⟩, ⟨offset + last - first, line, last⟩⟩

/-- `in price: number`. -/
def priceInput : Node Int := ⟨.inputDecl, spanOf 1 0 1 17, some "price".toList, some "number".toList, none, none, []⟩

def candleBlock : Node Int :=
  ⟨.inputBlock, ⟨⟨17, 2, 1⟩, ⟨38, 4, 2⟩⟩, some "candle".toList, none, none, none,
    [⟨.inputDecl, spanOf 3 31 3 8, some "close".toList, none, none, none, []⟩]⟩

def document (nodes : List (Node Int)) : Node Int := ⟨.file, ⟨⟨0, 1, 1⟩, ⟨39, 5, 1⟩⟩, none, none, none, none, nodes⟩

def noLibrary : Model.Library Int := ⟨fun _ => .error ⟨.syntaxError, ""⟩, fun _ _ => .error ⟨.syntaxError, ""⟩⟩

theorem exists_lowered {nodes : List (Node Int)} {list : TypedNames}
    (h : (lowerModel noLibrary (document nodes)).toOption.map Model.inputs = some list) :
    ∃ model, lowerModel noLibrary (document nodes) = .ok model ∧ model.inputs = list := by
  cases hrun : lowerModel noLibrary (document nodes) with
  | error e =>
    rw [hrun] at h
    cases h
  | ok model =>
    rw [hrun] at h
    exact ⟨model, rfl, Option.some.inj h⟩

theorem typesAligned_price : ∃ model, lowerModel noLibrary (document [priceInput]) = .ok model ∧
    TypesAligned (document [priceInput]) model := by
  obtain ⟨model, hrun, -⟩ :=
    @exists_lowered [priceInput] ⟨["price".toList], [some (.number, .number)]⟩ (by decide +kernel)
  exact ⟨model, hrun, (typesAligned_iff hrun).mpr (by decide)⟩

theorem not_typesAligned : ¬∀ (lib : Model.Library Int) (root : Node Int) (model : Model Int),
    lowerModel lib root = .ok model → TypesAligned root model := by
  intro h
  obtain ⟨model, hrun, hinputs⟩ := @exists_lowered [priceInput, candleBlock]
    ⟨["price".toList, "candle.close".toList], [some (.number, .number)]⟩ (by decide +kernel)
  obtain ⟨info, -, hentry⟩ := (h _ _ model hrun).1.2 1 _ rfl
  rw [hinputs] at hentry
  cases hentry

end Cxpr.Document
