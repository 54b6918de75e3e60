import Hierarchy.CommandLine.Execution

/-!
# Which layer decides

Settings come from the global file, the named file, the variables and the options.  Whatever these
say, each setting in effect is the one of the highest layer that gives it, as a whole, and the
default where no layer does (`resolveSettings_eq`).

Files give overlays.  So do variables and options, by other rules (`VariablesSay`, `OptionsSay`);
once this is known, all four layers are merged in the same way (`load_eq`, `applyOptions_eq`).
-/

namespace Hierarchy

/-! ## Layers of values -/

/-- The value of the highest layer that gives one.  The highest layer comes first. -/
def topmost {β : Type} (default : β) (layers : List (Option β)) : β :=
  (layers.findSome? id).getD default

@[simp] theorem topmost_nil {β : Type} (default : β) : topmost default [] = default := rfl

@[simp] theorem topmost_cons {β : Type} (default : β) (layer : Option β)
    (layers : List (Option β)) :
    topmost default (layer :: layers) = layer.getD (topmost default layers) := by
  cases layer <;> rfl

/-! ## Files -/

theorem FileTree.exists_of_read {files : FileTree} {path document : String}
    (h : files.read path = .ok document) : files.exists? path = true := by
  unfold FileTree.read at h
  unfold FileTree.exists?
  cases hfind : files.find path with
  | error cause =>
    rw [hfind] at h
    cases h
  | ok node => rfl

/-- One name in a directory, which leads to a node that is no link. -/
theorem FileTree.walk_child {files : FileTree} {p : Place} {names : List FileName}
    {name : FileName} {child : FileNode} {links : Nat}
    (hdirectory : ((files.node? p).any fun n => n.isDirectory && files.maySearch n) = true)
    (hname : name ≠ here ∧ name ≠ parent ∧ name.length ≤ nameLimit)
    (hchild : files.node? (p ++ [name]) = some child)
    (hkind : child.kind = .directory ∨ ∃ content, child.kind = .file content) :
    files.walk true links p (name :: names) false =
      files.walk true links (p ++ [name]) names false := by
  obtain ⟨n, hn, hopen⟩ := (Option.any_eq_true _ _).1 hdirectory
  obtain ⟨hdirectory, hsearch⟩ := Bool.and_eq_true_iff.1 hopen
  obtain ⟨hhere, hparent, hlength⟩ := hname
  rw [walk, hn]
  dsimp only
  rw [hdirectory, hsearch, hchild, if_neg hhere, if_neg hparent, if_neg (Nat.not_lt.2 hlength)]
  rcases hkind with hkind | ⟨content, hkind⟩
  · simp [hkind]
  · simp [hkind]

theorem FileTree.walk_nil {files : FileTree} {p : Place} {node : FileNode} {links : Nat}
    (hnode : files.node? p = some node) : files.walk true links p [] false = .ok p := by
  rw [walk, hnode]
  rfl

/-- A path that leads to a file whose text may be read. -/
theorem FileTree.read_of_walk {files : FileTree} {path : String} {p : Place} {node : FileNode}
    {content : FileContent} (hnul : '\x00' ∉ path.toList)
    (hsize : path.utf8ByteSize ≤ pathLimit ∧ path.isEmpty = false)
    (hwalk : files.walk true linkLimit (files.start (.ofPath path)) (Route.ofPath path).names
      (Route.ofPath path).slash = .ok p)
    (hnode : files.node? p = some node) (hmay : files.mayRead node = true)
    (hkind : node.kind = .file content) : files.read path = .ok content.read := by
  have hresolve : files.resolve path true = .ok p := by
    unfold resolve locate
    rw [String.contains_char_eq, decide_eq_false hnul, hsize.2, Bool.not_false, Bool.true_and,
      if_neg (by simpa using hsize.1)]
    exact hwalk
  have hfind : files.find path = .ok node := by
    unfold find
    rw [hresolve]
    dsimp only [bind, Except.bind]
    rw [hnode]
    rfl
  unfold FileTree.read
  rw [hfind]
  dsimp only [bind, Except.bind]
  rw [hmay, hkind]
  rfl

theorem Overlay.ofFile_eq {files : FileTree} {path document : String} {o : Overlay}
    (hread : files.read path = .ok document) (hdocument : Overlay.ofToml? document = some o) :
    Overlay.ofFile files path = .ok o := by
  unfold Overlay.ofFile
  rw [hread]
  dsimp only
  rw [hdocument]

namespace Settings

/-- The global file says what `o` says, or there is no global file. -/
def GlobalFileSays (files : FileTree) (env : Environment) (o : Overlay) : Prop :=
  (∃ path document, env.globalFile? = some path ∧ files.read path = .ok document ∧
      Overlay.ofToml? document = some o) ∨
    (∀ path, env.globalFile? = some path → files.exists? path = false) ∧ o = .empty

/-- The file that the user names says what `o` says, or the user names none. -/
def NamedFileSays (files : FileTree) (env : Environment) (named : Option String) (o : Overlay) :
    Prop :=
  (∃ path document, named = some path ∧
      files.read (NativePath.expand env.value? path) = .ok document ∧
      Overlay.ofToml? document = some o) ∨
    named = none ∧ o = .empty

variable {files : FileTree} {env : Environment} {named : Option String} {g n e : Overlay}

theorem globalLayer_eq (h : GlobalFileSays files env g) : globalLayer files env = .ok g := by
  unfold globalLayer
  rcases h with ⟨path, document, hpath, hread, hdocument⟩ | ⟨hnone, rfl⟩
  · rw [hpath]
    dsimp only
    rw [FileTree.exists_of_read hread, if_pos rfl, Overlay.ofFile_eq hread hdocument]
  · cases hpath : env.globalFile? with
    | none => rfl
    | some path =>
      dsimp only
      rw [hnone path hpath]
      rfl

theorem namedLayer_eq (h : NamedFileSays files env named n) :
    namedLayer files env named = .ok n := by
  unfold namedLayer
  rcases h with ⟨path, document, rfl, hread, hdocument⟩ | ⟨rfl, rfl⟩
  · dsimp only
    rw [FileTree.exists_of_read hread, if_pos rfl, Overlay.ofFile_eq hread hdocument]
  · rfl

end Settings

/-! ## Variables -/

namespace Environment

/-- The variable for `key` gives `value`: it is not set, or its value can be converted. -/
def Gives {β : Type} (env : Environment) (key : String) (convert : Guess → Option β)
    (value : Option β) : Prop :=
  (env.guess? key = none ∧ value = none) ∨
    ∃ guess b, env.guess? key = some guess ∧ convert guess = some b ∧ value = some b

theorem Gives.bind_eq {β : Type} {env : Environment} {key : String} {convert : Guess → Option β}
    {value : Option β} (h : env.Gives key convert value) :
    (env.guess? key).bind convert = value := by
  rcases h with ⟨hnone, rfl⟩ | ⟨guess, b, hguess, hconvert, rfl⟩
  · rw [hnone]
    rfl
  · rw [hguess]
    exact hconvert

/-- A number of workers. -/
def workers? (guess : Guess) : Option Nat :=
  guess.integer?.bind fun n => if 0 ≤ n then some n.toNat else none

def mode? (guess : Guess) : Option OutputMode :=
  guess.text?.bind fun text => (OutputMode.parse text).toOption

/-- The variables say what `o` says: each one that is set can be converted to its setting.  Without
a variable for all sort criteria, there may be variables for each of them. -/
structure VariablesSay (env : Environment) (o : Overlay) : Prop where
  closure : env.Gives "closure" Guess.truth? o.closure
  parallel : env.Gives "parallel" workers? o.parallel
  sort : (∃ guess items, env.guess? "sort" = some guess ∧ guess.strings? = some items ∧
      o.sort = some items) ∨
    env.guess? "sort" = none ∧ o.sort = env.items? "sort"
  output : env.Gives "output" mode? o.output
  nodeSymbol : env.Gives "node_symbol" Guess.text? o.nodeSymbol

variable {env : Environment} {o : Overlay}

theorem VariablesSay.sort_eq (h : env.VariablesSay o) :
    (match env.guess? "sort" with
      | some guess => guess.strings?
      | none => env.items? "sort") = o.sort := by
  rcases h.sort with ⟨guess, items, hguess, hitems, hsort⟩ | ⟨hnone, hsort⟩
  · rw [hguess, hsort]
    exact hitems
  · rw [hnone, hsort]

/-- A number of workers is none below zero. -/
theorem Gives.workers {value : Option Nat} (h : env.Gives "parallel" workers? value) :
    ((env.guess? "parallel").bind Guess.integer? = none ∧ value = none) ∨
      ∃ n, (env.guess? "parallel").bind Guess.integer? = some n ∧ ¬ n < 0 ∧
        value = some n.toNat := by
  rcases h with ⟨hnone, rfl⟩ | ⟨guess, b, hguess, hconvert, rfl⟩
  · exact .inl ⟨by rw [hnone]; rfl, rfl⟩
  · obtain ⟨n, hn, hworkers⟩ := Option.bind_eq_some_iff.1 hconvert
    obtain ⟨hle, rfl⟩ : 0 ≤ n ∧ n.toNat = b := by simpa using hworkers
    exact .inr ⟨n, by rw [hguess]; exact hn, Int.not_lt.2 hle, rfl⟩

theorem Gives.mode {value : Option OutputMode} (h : env.Gives "output" mode? value) :
    ((env.guess? "output").bind Guess.text? = none ∧ value = none) ∨
      ∃ text mode, (env.guess? "output").bind Guess.text? = some text ∧
        OutputMode.parse text = .ok mode ∧ value = some mode := by
  rcases h with ⟨hnone, rfl⟩ | ⟨guess, mode, hguess, hconvert, rfl⟩
  · exact .inl ⟨by rw [hnone]; rfl, rfl⟩
  · obtain ⟨text, htext, hmode⟩ := Option.bind_eq_some_iff.1 hconvert
    refine .inr ⟨text, mode, by rw [hguess]; exact htext, ?_, rfl⟩
    cases hparse : OutputMode.parse text with
    | error cause =>
      rw [hparse] at hmode
      cases hmode
    | ok mode' =>
      rw [hparse] at hmode
      rw [Option.some.inj hmode]

/-! The layer is made of what may be refused, and of the rest. -/

/-- The number of workers that the variables give, unless it is refused. -/
def workersSetting (env : Environment) : Except RunError (Option Nat) :=
  match (env.guess? "parallel").bind Guess.integer? with
  | none => .ok none
  | some n => if n < 0 then .error (.parallelism (toString n)) else .ok (some n.toNat)

/-- The output mode that the variables give, unless it is refused. -/
def modeSetting (env : Environment) : Except RunError (Option OutputMode) :=
  match (env.guess? "output").bind Guess.text? with
  | none => .ok none
  | some text => some <$> OutputMode.parse text

theorem overlay_eq_do (env : Environment) :
    env.overlay = do
      let parallel ← env.workersSetting
      let output ← env.modeSetting
      return {
        closure := (env.guess? "closure").bind Guess.truth?
        parallel, output
        sort := match env.guess? "sort" with
          | some guess => guess.strings?
          | none => env.items? "sort"
        nodeSymbol := (env.guess? "node_symbol").bind Guess.text? } := by
  unfold overlay workersSetting modeSetting
  cases (env.guess? "output").bind Guess.text? <;>
    cases (env.guess? "parallel").bind Guess.integer? with
    | none => rfl
    | some n =>
      dsimp only
      split <;> rfl

theorem VariablesSay.workersSetting_eq (h : env.VariablesSay o) :
    env.workersSetting = .ok o.parallel := by
  unfold workersSetting
  rcases h.parallel.workers with ⟨hworkers, hparallel⟩ | ⟨n, hworkers, hle, hparallel⟩
  · rw [hworkers, hparallel]
  · rw [hworkers, hparallel]
    exact if_neg hle

theorem VariablesSay.modeSetting_eq (h : env.VariablesSay o) :
    env.modeSetting = .ok o.output := by
  unfold modeSetting
  rcases h.output.mode with ⟨htext, houtput⟩ | ⟨text, mode, htext, hparse, houtput⟩
  · rw [htext, houtput]
  · rw [htext, houtput]
    dsimp only
    rw [hparse]
    rfl

theorem overlay_eq (h : env.VariablesSay o) : env.overlay = .ok o := by
  rw [overlay_eq_do, h.workersSetting_eq, h.modeSetting_eq, h.closure.bind_eq, h.sort_eq,
    h.nodeSymbol.bind_eq]
  rfl

end Environment

/-! ## All layers -/

theorem Settings.load_eq {files : FileTree} {env : Environment} {named : Option String}
    {g n e : Overlay} (hglobal : GlobalFileSays files env g)
    (hnamed : NamedFileSays files env named n) (hvariables : env.VariablesSay e) :
    load files env named = .ok (((Settings.default.merge g).merge n).merge e) := by
  unfold load
  rw [globalLayer_eq hglobal, namedLayer_eq hnamed, Environment.overlay_eq hvariables]
  rfl

namespace CommandLine

/-- The options say what `o` says; of closure they can only say that it is wanted. -/
structure OptionsSay (i : Invocation) (o : Overlay) : Prop where
  closure : o.closure = if i.closure then some true else none
  parallel : o.parallel = i.parallel
  sort : o.sort = if i.sort = [] then none else some i.sort
  output : (i.output = none ∧ o.output = none) ∨
    ∃ text mode, i.output = some text ∧ OutputMode.parse text = .ok mode ∧ o.output = some mode
  nodeSymbol : o.nodeSymbol = none

/-- Options override settings as overlays do. -/
theorem applyOptions_eq {s : Settings} {i : Invocation} {o : Overlay} (h : OptionsSay i o) :
    applyOptions s i = .ok (s.merge o) := by
  have hclosure : (s.closure || i.closure) = o.closure.getD s.closure := by
    rw [h.closure]
    cases i.closure <;> simp
  have hsort : (if i.sort.isEmpty then s.sort else i.sort) = o.sort.getD s.sort := by
    rw [h.sort]
    cases i.sort <;> rfl
  unfold applyOptions Settings.merge
  rw [hclosure, hsort, ← h.parallel, h.nodeSymbol]
  rcases h.output with ⟨hnone, houtput⟩ | ⟨text, mode, hsome, hparse, houtput⟩
  · rw [hnone, houtput]
    rfl
  · rw [hsome, houtput]
    dsimp only
    rw [hparse]
    rfl

/-- Whatever files, variables and options say, each setting in effect is the one of the highest
layer that gives it, and the default if none does. -/
theorem resolveSettings_eq {w : Surroundings} {i : Invocation} {g n e o : Overlay}
    (hglobal : Settings.GlobalFileSays w.files w.environment g)
    (hnamed : Settings.NamedFileSays w.files w.environment i.config n)
    (hvariables : w.environment.VariablesSay e) (hoptions : OptionsSay i o) :
    resolveSettings w i = .ok
      { closure := topmost false [if i.closure then some true else none, e.closure, n.closure,
          g.closure]
        parallel := topmost 0 [i.parallel, e.parallel, n.parallel, g.parallel]
        sort := topmost [] [if i.sort = [] then none else some i.sort, e.sort, n.sort, g.sort]
        output := topmost .table [o.output, e.output, n.output, g.output]
        nodeSymbol := topmost defaultSymbol [e.nodeSymbol, n.nodeSymbol, g.nodeSymbol] } := by
  have hload := Settings.load_eq hglobal hnamed hvariables
  unfold resolveSettings
  rw [hload]
  change applyOptions _ i = _
  rw [applyOptions_eq hoptions, ← hoptions.closure, ← hoptions.parallel, ← hoptions.sort]
  simp only [Settings.merge, topmost_cons, topmost_nil, hoptions.nodeSymbol]
  rfl

/-! An office: the global file and an own one name criteria, two variables and one option are
set. -/

def officeText : String := "closure = true\nsort = [\"name\"]\nnode_symbol = \"+\"\n"

def ownText : String := "sort = []\noutput = \"json\"\n"

def officePlace : Place := [Text.utf8 "hiertree", Text.utf8 "hiertree.toml"]

def ownPlace : Place := [Text.utf8 "own"]

def office : Surroundings where
  files := {
    nodes := [
      ([], ⟨.directory, 0o755, 0⟩),
      ([Text.utf8 "hiertree"], ⟨.directory, 0o755, 0⟩),
      (officePlace, ⟨.file (.text officeText), 0o644, 0⟩),
      (ownPlace, ⟨.file (.text ownText), 0o644, 0⟩)]
    workingDirectory := []
    privileged := false }
  environment := [("XDG_CONFIG_HOME", "/"), ("HIERTREE_PARALLEL", "4"),
    ("HIERTREE_OUTPUT", "Tree")]
  colours := false

def officeRequest : Invocation :=
  ⟨0, some "own", false, none, [], some "YAML", none, some (.config .effective)⟩

theorem office_global : Settings.GlobalFileSays office.files office.environment
    ⟨some true, none, some ["name"], none, some "+"⟩ := by
  have hroute : (Route.ofPath "/hiertree/hiertree.toml").names = officePlace ∧
      (Route.ofPath "/hiertree/hiertree.toml").slash = false ∧
      office.files.start (.ofPath "/hiertree/hiertree.toml") = [] := by decide +kernel
  have hdirectory : office.files.node? [Text.utf8 "hiertree"] = some ⟨.directory, 0o755, 0⟩ := by
    decide +kernel
  have hnode : office.files.node? officePlace = some ⟨.file (.text officeText), 0o644, 0⟩ := by
    decide +kernel
  have hwalk : office.files.walk true FileTree.linkLimit [] officePlace false = .ok officePlace :=
    (FileTree.walk_child (by decide +kernel) (by decide +kernel) hdirectory (.inl rfl)).trans
      ((FileTree.walk_child (by decide +kernel) (by decide +kernel) hnode (.inr ⟨_, rfl⟩)).trans
        (FileTree.walk_nil hnode))
  refine .inl ⟨"/hiertree/hiertree.toml", officeText, by decide +kernel, ?_, by decide +kernel⟩
  refine FileTree.read_of_walk (by decide +kernel) (by decide +kernel) ?_ hnode
    (by decide +kernel) rfl
  rw [hroute.1, hroute.2.1, hroute.2.2, hwalk]

theorem office_named : Settings.NamedFileSays office.files office.environment officeRequest.config
    ⟨none, none, some [], some .json, none⟩ := by
  have hroute : (Route.ofPath "own").names = ownPlace ∧ (Route.ofPath "own").slash = false ∧
      office.files.start (.ofPath "own") = [] := by decide +kernel
  have hnode : office.files.node? ownPlace = some ⟨.file (.text ownText), 0o644, 0⟩ := by
    decide +kernel
  have hwalk : office.files.walk true FileTree.linkLimit [] ownPlace false = .ok ownPlace :=
    (FileTree.walk_child (by decide +kernel) (by decide +kernel) hnode (.inr ⟨_, rfl⟩)).trans
      (FileTree.walk_nil hnode)
  have hpath : NativePath.expand office.environment.value? "own" = "own" := by decide +kernel
  refine .inl ⟨"own", ownText, rfl, ?_, by decide +kernel⟩
  rw [hpath]
  refine FileTree.read_of_walk (by decide +kernel) (by decide +kernel) ?_ hnode
    (by decide +kernel) rfl
  rw [hroute.1, hroute.2.1, hroute.2.2, hwalk]

theorem office_variables :
    office.environment.VariablesSay ⟨none, some 4, none, some .tree, none⟩ where
  closure := .inl ⟨by decide +kernel, rfl⟩
  parallel := .inr ⟨.integer 4, 4, by decide +kernel, by decide +kernel, rfl⟩
  sort := .inr ⟨by decide +kernel, by decide +kernel⟩
  output := .inr ⟨.text "Tree", .tree, by decide +kernel, by decide +kernel, rfl⟩
  nodeSymbol := .inl ⟨by decide +kernel, rfl⟩

theorem office_options :
    OptionsSay officeRequest ⟨none, none, none, some .yaml, none⟩ where
  closure := rfl
  parallel := rfl
  sort := rfl
  output := by
    have hname : OutputMode.ofName? (Text.lowerCase "YAML") = some .yaml := by decide +kernel
    refine .inr ⟨"YAML", .yaml, rfl, ?_, rfl⟩
    unfold OutputMode.parse
    rw [hname]
  nodeSymbol := rfl

/-- The own file asks for no criteria at all, and the ones of the global file are gone. -/
theorem office_settings :
    resolveSettings office officeRequest = .ok ⟨true, 4, [], .yaml, "+"⟩ :=
  resolveSettings_eq office_global office_named office_variables office_options

end CommandLine

end Hierarchy
