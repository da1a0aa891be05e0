import Capabilities.Proofs.Inference.Origin
import Mathlib

/-!
# The frames of a spot are the scopes around it

Each part of a tree is met at most once, so no function makes its scope twice, and it makes it in
the scope of the spot it stands in. So the scopes of the frames at a spot are the chain of the
spot's scope, also when the script is done.
-/

namespace Capabilities.Inference

open Script Capabilities.Types

/-! ### Scopes that are made -/

def Act.opened? : Act → Option ScopeId
  | .opens scope _ => some scope
  | _ => none

/-- How often acts make a scope. -/
def openings (id : ScopeId) (acts : List Act) : Nat := acts.countP (·.opened? == some id)

theorem openings_append (id : ScopeId) (acts more : List Act) :
    openings id (acts ++ more) = openings id acts + openings id more :=
  List.countP_append

theorem openings_pos {id parent : ScopeId} {acts : List Act} (h : .opens id parent ∈ acts) :
    0 < openings id acts :=
  List.countP_pos_iff.2 ⟨_, h, beq_self_eq_true (some id)⟩

def occurrences (id : Nat) (node : Node) : Nat := (node.nodes.map Node.id).count id

/-- How many nodes have an id in the part that has a role. -/
def portion (id : Nat) (node : Node) (role : Role) : Nat :=
  (node.parts.map fun child => if child.role = some role then occurrences id child else 0).sum

def inParts (id : Nat) (node : Node) : Nat := (node.parts.map (occurrences id)).sum

theorem occurrences_eq (id : Nat) (node : Node) :
    occurrences id node = inParts id node + if node.id = id then 1 else 0 := by
  unfold occurrences inParts
  rw [Node.nodes_eq, List.map_cons, List.count_cons, List.map_flatMap, List.count_flatMap]
  congr 1
  by_cases h : node.id = id <;> simp [h]

theorem inParts_le (id : Nat) (node : Node) : inParts id node ≤ occurrences id node := by
  rw [occurrences_eq]
  exact Nat.le_add_right _ _

/-- What has one of some roles has one of them only. -/
theorem sum_ite_role_le {roles : List Role} (hroles : roles.Nodup) (role? : Option Role)
    (amount : Nat) :
    (roles.map fun role => if role? = some role then amount else 0).sum ≤ amount := by
  induction hroles with
  | nil => exact Nat.zero_le _
  | @cons role roles hne _ ih =>
    rw [List.map_cons, List.sum_cons]
    by_cases hrole : role? = some role
    · have hothers : (roles.map fun role => if role? = some role then amount else 0).sum = 0 := by
        refine List.sum_eq_zero fun share hshare => ?_
        obtain ⟨other, hother, rfl⟩ := List.mem_map.1 hshare
        exact if_neg fun hsame => hne other hother (Option.some.inj (hrole.symm.trans hsame))
      refine Nat.le_of_eq ?_
      rw [if_pos hrole, hothers, Nat.add_zero]
    · rw [if_neg hrole, Nat.zero_add]
      exact ih

/-- Different roles have different parts. -/
theorem sum_portions_le (roles : List Role) (hroles : roles.Nodup) (id : Nat) (node : Node) :
    (roles.map (portion id node)).sum ≤ inParts id node := by
  unfold portion inParts
  induction node.parts with
  | nil => simp
  | cons child children ih =>
    simp only [List.map_cons, List.sum_cons, List.sum_map_add]
    exact Nat.add_le_add (sum_ite_role_le hroles child.role (occurrences id child)) ih

/-! ### Spots that are led to -/

variable {acts more : List Act} {outer middle spot : Spot} {id most extra : Nat}
  {scope : ScopeId} {name : String} {node child : Node} {position : Position}

/-- A spot is the outer one, or it is in a function that is made at a spot led to. -/
inductive Leads (acts : List Act) (outer : Spot) : Spot → Prop
  | here : Leads acts outer outer
  | inside {spot : Spot} {scope : ScopeId} (ahead : List String) (h : Leads acts outer spot)
      (hopens : .opens scope spot.scope ∈ acts) :
      Leads acts outer ⟨scope, ⟨scope, ahead⟩ :: spot.frames⟩

theorem Leads.mono (h : Leads acts outer spot) (hsub : acts ⊆ more) : Leads more outer spot := by
  induction h with
  | here => exact .here
  | inside ahead _ hopens ih => exact .inside ahead ih (hsub hopens)

theorem Leads.trans (h : Leads acts outer middle) (h' : Leads acts middle spot) :
    Leads acts outer spot := by
  induction h' with
  | here => exact h
  | inside ahead _ hopens ih => exact .inside ahead ih hopens

/-- Acts make a scope no more often than said, and lead to each spot at which they assign. -/
structure Orderly (id : Nat) (outer : Spot) (acts : List Act) (most : Nat) : Prop where
  openings : openings id acts ≤ most
  leads : ∀ source left spot, .assigns source left spot ∈ acts → Leads acts outer spot

namespace Orderly

theorem nil : Orderly id outer [] 0 :=
  ⟨Nat.le_refl _, fun _ _ _ h => absurd h List.not_mem_nil⟩

theorem mono (h : Orderly id outer acts most) (hmost : most ≤ extra) :
    Orderly id outer acts extra :=
  ⟨Nat.le_trans h.openings hmost, h.leads⟩

theorem append (h : Orderly id outer acts most) (h' : Orderly id outer more extra) :
    Orderly id outer (acts ++ more) (most + extra) := by
  constructor
  · rw [openings_append]
    exact Nat.add_le_add h.openings h'.openings
  · intro source left spot hassigns
    rcases List.mem_append.1 hassigns with hacts | hmore
    · exact (h.leads source left spot hacts).mono (List.subset_append_left ..)
    · exact (h'.leads source left spot hmore).mono (List.subset_append_right ..)

/-- Acts that make no scope and assign nothing. -/
theorem of_plain (h : ∀ act ∈ acts, act.opened? = none ∧ ∀ source left spot,
    act ≠ .assigns source left spot) : Orderly id outer acts 0 := by
  constructor
  · refine Nat.le_of_eq (List.countP_eq_zero.2 fun act hact => ?_)
    rw [(h act hact).1]
    exact Bool.false_ne_true
  · intro source left spot hassigns
    exact absurd rfl ((h _ hassigns).2 source left spot)

theorem declares (names : List String) : Orderly id outer (names.map (.declares scope)) 0 := by
  refine of_plain fun act hact => ?_
  obtain ⟨name, -, rfl⟩ := List.mem_map.1 hact
  exact ⟨rfl, nofun⟩

theorem declaring (spot : Spot) (name : Option String) :
    Orderly id outer (Course.declaring spot name) 0 :=
  declares name.toList

theorem notes (own : Nat) : Orderly id outer [.notes own] 0 := by
  refine of_plain fun act hact => ?_
  rw [List.mem_singleton.1 hact]
  exact ⟨rfl, nofun⟩

theorem assigns {source : Option Node} {left : Node} :
    Orderly id outer [.assigns source left outer] 0 := by
  refine ⟨Nat.le_refl _, fun other target spot hassigns => ?_⟩
  cases List.mem_singleton.1 hassigns
  exact .here

theorem hoist (spot : Spot) : Orderly id outer (course node .hoist spot) 0 := by
  refine of_plain fun act hact => ?_
  obtain ⟨name, rfl⟩ := Course.declares_of_mem_hoist hact
  exact ⟨rfl, nofun⟩

theorem flatMap {ι : Type} {items : List ι} {acts : ι → List Act} {most : ι → Nat}
    (h : ∀ item ∈ items, Orderly id outer (acts item) (most item)) :
    Orderly id outer (items.flatMap acts) (items.map most).sum := by
  induction items with
  | nil => exact nil
  | cons item items ih =>
    rw [List.flatMap_cons, List.map_cons, List.sum_cons]
    exact (h item List.mem_cons_self).append
      (ih fun other hother => h other (List.mem_cons_of_mem _ hother))

theorem opens {parent : ScopeId} :
    Orderly id outer [.opens scope parent] (if scope = id then 1 else 0) := by
  constructor
  · unfold Inference.openings
    by_cases h : scope = id <;> simp [Act.opened?, h]
  · intro source left spot hassigns
    cases List.mem_singleton.1 hassigns

/-- Acts in a function that one of the first acts makes. -/
theorem inside {ahead : List String} (h : Orderly id spot acts most)
    (hopens : .opens scope spot.scope ∈ acts)
    (h' : Orderly id ⟨scope, ⟨scope, ahead⟩ :: spot.frames⟩ more extra) :
    Orderly id spot (acts ++ more) (most + extra) := by
  constructor
  · rw [openings_append]
    exact Nat.add_le_add h.openings h'.openings
  · intro source left inner hassigns
    rcases List.mem_append.1 hassigns with hacts | hmore
    · exact (h.leads source left inner hacts).mono (List.subset_append_left ..)
    · have hinside : Leads (acts ++ more) spot ⟨scope, ⟨scope, ahead⟩ :: spot.frames⟩ :=
        .inside ahead .here (List.mem_append_left _ hopens)
      exact hinside.trans ((h'.leads source left inner hmore).mono (List.subset_append_right ..))

end Orderly

/-! ### Constructs -/

/-- The courses of all parts of a node are orderly. -/
def Spread (id : Nat) (node : Node) : Prop :=
  ∀ child ∈ node.parts, ∀ position spot,
    Orderly id spot (course child position spot) (occurrences id child)

namespace Course

variable {roles : List Role} {role : Role}

theorem orderly_part (hall : Spread id node) (haside : Aside node) (position : Position)
    (spot : Spot) (role : Role) :
    Orderly id spot (part (family node) position spot role) (portion id node role) := by
  cases hchild : node.part? role with
  | none =>
    rw [part_of_none _ _ hchild]
    exact Orderly.nil.mono (Nat.zero_le _)
  | some child =>
    rw [part_of_some _ _ hchild]
    have hpart := Node.mem_parts_of_part? haside hchild
    refine (hall child hpart position spot).mono (List.le_sum_of_mem ?_)
    exact List.mem_map.2 ⟨child, hpart, if_pos (Node.role_of_part? hchild)⟩

theorem orderly_each (hall : Spread id node) (position : Position) (spot : Spot) :
    Orderly id spot (each (family node) position spot) (inParts id node) := by
  rw [each_family]
  exact .flatMap fun child hchild => hall child hchild position spot

/-- Parts in different roles, in whatever positions. -/
theorem orderly_parts (hall : Spread id node) (haside : Aside node) (spot : Spot)
    (parts : List (Role × Position)) (hroles : (parts.map Prod.fst).Nodup) :
    Orderly id spot (parts.flatMap fun item => part (family node) item.2 spot item.1)
      (inParts id node) := by
  refine Orderly.mono (.flatMap fun item _ => orderly_part hall haside item.2 spot item.1) ?_
  have hsum := sum_portions_le _ hroles id node
  rwa [List.map_map] at hsum

theorem orderly_single (hall : Spread id node) (haside : Aside node) (position : Position)
    (spot : Spot) (role : Role) :
    Orderly id spot (part (family node) position spot role) (inParts id node) := by
  have h := orderly_parts hall haside spot [(role, position)] (List.nodup_singleton _)
  rwa [List.flatMap_singleton] at h

theorem orderly_parameters (hall : Spread id node) (haside : Aside node) (spot : Spot) :
    Orderly id spot (parameters (family node) spot)
      (portion id node .parameter + portion id node .parameters) := by
  unfold parameters
  rw [find?_family]
  cases hsingle : node.part? .parameter with
  | some single =>
    have hpart := orderly_part hall haside .bind spot .parameter
    rw [part_of_some _ _ hsingle] at hpart
    exact hpart.mono (Nat.le_add_right _ _)
  | none => exact (orderly_part hall haside .bindParts spot .parameters).mono (Nat.le_add_left _ _)

theorem orderly_body (hall : Spread id node) (haside : Aside node) (spot : Spot)
    (before : List Act) :
    ∃ ahead, Orderly id ⟨node.id, ⟨node.id, ahead⟩ :: spot.frames⟩
      (body node (family node) spot before) (portion id node .body) := by
  unfold body
  rw [find?_family]
  cases hbody : node.part? .body with
  | none => exact ⟨[], Orderly.nil.mono (Nat.zero_le _)⟩
  | some child =>
    have hpart := fun position spot => orderly_part hall haside position spot .body
    simp only [part_of_some _ _ hbody] at hpart
    dsimp only [Option.map_some]
    split
    · refine ⟨namesIn node.id (before ++ course child .hoist (spot.enter node.id before)), ?_⟩
      rw [← Nat.zero_add (portion id node .body)]
      exact (Orderly.hoist _).append (hpart .walkParts _)
    · exact ⟨_, hpart .evaluate _⟩

theorem orderly_function (hall : Spread id node) (haside : Aside node) (spot : Spot) :
    Orderly id spot (function node (family node) spot) (occurrences id node) := by
  let opening : List Act :=
    .opens node.id spot.scope :: (ownName node).toList.map (.declares node.id)
  have hopening : Orderly id spot opening (if node.id = id then 1 else 0) :=
    Orderly.opens.append (.declares _)
  have hopens : .opens node.id spot.scope ∈ opening := List.mem_cons_self
  have hbound := hopening.inside hopens
    (orderly_parameters hall haside (spot.enter node.id opening))
  obtain ⟨ahead, hbody⟩ := orderly_body hall haside spot
    (opening ++ parameters (family node) (spot.enter node.id opening))
  have hwhole := (hbound.inside (List.mem_append_left _ hopens) hbody).append (.notes node.id)
  refine hwhole.mono ?_
  have hparts := sum_portions_le [.parameter, .parameters, .body] (by decide) id node
  simp only [List.map_cons, List.map_nil, List.sum_cons, List.sum_nil] at hparts
  rw [occurrences_eq]
  omega

theorem orderly_parameter (hall : Spread id node) (haside : Aside node) (spot : Spot) :
    Orderly id spot (parameter node (family node) spot) (inParts id node) := by
  unfold parameter
  split
  · exact Orderly.nil.mono (Nat.zero_le _)
  · rename_i name _
    have hname : Orderly id spot [.declares spot.scope name] 0 := .declares [name]
    have hdefault : Orderly id spot
        (if node.kind == .assignmentPattern then part (family node) .evaluate spot .right else [])
        (inParts id node) := by
      split
      · exact orderly_single hall haside .evaluate spot .right
      · exact Orderly.nil.mono (Nat.zero_le _)
    exact (hname.append hdefault).mono (Nat.zero_add _).le

theorem orderly_valueByKind (hall : Spread id node) (haside : Aside node) (spot : Spot) :
    Orderly id spot (valueByKind node (family node) spot) (occurrences id node) := by
  have hnone : Orderly id spot [] (occurrences id node) := Orderly.nil.mono (Nat.zero_le _)
  have hbelow := inParts_le id node
  have heach := fun position => (orderly_each hall position spot).mono hbelow
  have hparts := fun parts hroles => (orderly_parts hall haside spot parts hroles).mono hbelow
  unfold valueByKind
  split
  case h_1 => exact hnone
  case h_2 => exact hnone
  case h_3 => exact hnone
  case h_4 => exact hnone
  case h_5 => exact hnone
  case h_6 => exact hnone
  case h_7 => exact heach .evaluate
  case h_8 => exact heach .evaluate
  case h_9 => exact heach .addTo
  case h_10 => exact heach .walk
  case h_11 => exact orderly_function hall haside spot
  case h_12 => exact orderly_function hall haside spot
  case h_13 => exact orderly_function hall haside spot
  case h_14 =>
    exact (orderly_single hall haside .evaluate spot .object).mono hbelow
  case h_15 =>
    have h := hparts [(.callee, .evaluate), (.arguments, .walkParts)] (by decide)
    simpa using h
  case h_16 =>
    have h := hparts [(.constructor, .evaluate), (.arguments, .walkParts)] (by decide)
    simpa using h
  case h_17 =>
    have hroles : [Role.right, .left].Nodup := by decide
    have h := hparts [(.right, .evaluate), (.left, .receive (node.part? .right))] hroles
    simpa using h
  case h_18 =>
    have h := hparts [(.condition, .evaluate), (.consequence, .evaluate),
      (.alternative, .evaluate)] (by decide)
    simpa using h
  case h_19 => exact heach .walk

theorem orderly_value (hall : Spread id node) (haside : Aside node) (spot : Spot) :
    Orderly id spot (value node (family node) spot) (occurrences id node) :=
  (orderly_valueByKind hall haside spot).append (.notes node.id)

theorem orderly_declarator (hall : Spread id node) (haside : Aside node) (spot : Spot) :
    Orderly id spot (declarator node (family node) spot) (inParts id node) := by
  unfold declarator
  split
  · have h := (Orderly.declaring spot (node.nameOf? .name)).append
      (orderly_single hall haside .evaluate spot .value)
    rwa [Nat.zero_add] at h
  · exact Orderly.nil.mono (Nat.zero_le _)

theorem orderly_returning (hall : Spread id node) (spot : Spot) :
    Orderly id spot (returning (family node) spot) (inParts id node) := by
  unfold returning
  rw [filter_family]
  cases hparts : node.parts with
  | nil => exact Orderly.nil.mono (Nat.zero_le _)
  | cons child rest =>
    have hchild : child ∈ node.parts := by
      rw [hparts]
      exact List.mem_cons_self
    exact (hall child hchild .evaluate spot).mono
      (List.le_sum_of_mem (List.mem_map_of_mem hchild))

theorem orderly_statement (hall : Spread id node) (haside : Aside node) (spot : Spot) :
    Orderly id spot (statement node (family node) spot) (occurrences id node) := by
  have hbelow := inParts_le id node
  unfold statement
  split
  · exact (orderly_each hall .declare spot).mono hbelow
  · exact (orderly_each hall .declare spot).mono hbelow
  · exact orderly_function hall haside spot
  · exact orderly_function hall haside spot
  · exact (orderly_returning hall spot).mono hbelow
  · split
    · exact orderly_value hall haside spot
    · exact (orderly_each hall .walk spot).mono hbelow

theorem orderly_objectMember (hall : Spread id node) (haside : Aside node) (spot : Spot) :
    Orderly id spot (objectMember node (family node) spot) (occurrences id node) := by
  unfold objectMember
  split
  · exact (orderly_single hall haside .evaluate spot .value).mono (inParts_le id node)
  · exact Orderly.nil.mono (Nat.zero_le _)
  · exact orderly_function hall haside spot
  · exact orderly_statement hall haside spot

theorem orderly_target (hall : Spread id node) (haside : Aside node) (source : Option Node)
    (spot : Spot) :
    Orderly id spot (target node (family node) spot source) (occurrences id node) := by
  unfold target
  split
  · exact Orderly.assigns.mono (Nat.zero_le _)
  · exact (orderly_single hall haside .evaluate spot .object).mono (inParts_le id node)
  · exact orderly_statement hall haside spot

theorem orderly_make (hall : Spread id node) (haside : Aside node) (position : Position)
    (spot : Spot) :
    Orderly id spot (make node (family node) position spot) (occurrences id node) := by
  have hbelow := inParts_le id node
  cases position with
  | hoist =>
    have h : Orderly id spot (course node .hoist spot) 0 := .hoist spot
    rw [course_eq] at h
    exact h.mono (Nat.zero_le _)
  | walkParts => exact (orderly_each hall .walk spot).mono hbelow
  | walk => exact orderly_statement hall haside spot
  | evaluate => exact orderly_value hall haside spot
  | declare => exact (orderly_declarator hall haside spot).mono hbelow
  | addTo => exact orderly_objectMember hall haside spot
  | bind => exact (orderly_parameter hall haside spot).mono hbelow
  | bindParts => exact (orderly_each hall .bind spot).mono hbelow
  | receive source => exact orderly_target hall haside source spot

end Course

/-- In the course of a tree each node makes a scope once at most. -/
theorem orderly_course (haside : Aside node) (position : Position) (spot : Spot) :
    Orderly id spot (course node position spot) (occurrences id node) := by
  induction node using Node.induction generalizing position spot with
  | step node ih =>
    rw [course_eq]
    refine Course.orderly_make (fun child hchild position spot => ?_) haside position spot
    have hmem := Node.mem_children_of_mem_parts hchild
    exact ih child hmem (haside.of_mem hmem) position spot

/-- In the course of a script no node makes the scope of the script again. -/
theorem orderly_scriptCourse (id : Nat) {root : Node} (haside : Aside root) :
    ∃ ahead, Orderly id ⟨root.id, [⟨root.id, ahead⟩]⟩ (scriptCourse root) (inParts id root) := by
  have hall : Spread id root := fun child hchild =>
    orderly_course (haside.of_mem (Node.mem_children_of_mem_parts hchild))
  refine ⟨namesIn root.id (course root .hoist ⟨root.id, []⟩), ?_⟩
  have hwalk : Orderly id (Spot.enter ⟨root.id, []⟩ root.id (course root .hoist ⟨root.id, []⟩))
      (course root .walkParts
        (Spot.enter ⟨root.id, []⟩ root.id (course root .hoist ⟨root.id, []⟩)))
      (inParts id root) := by
    rw [course_eq root]
    exact Course.orderly_each hall .walk _
  exact ((Orderly.hoist _).append hwalk).mono (Nat.zero_add _).le

/-! ### Chains -/

variable {root left : Node} {source : Option Node} {base : Store} {run next last : Run}
  {parent : ScopeId}

/-- A scope that is made once is made in the scope that it is made in. -/
theorem Performed.parent_of_opens (h : Performed run acts next)
    (hnone : run.scopes.get? scope = none) (honce : openings scope acts ≤ 1)
    (hopens : .opens scope parent ∈ acts) :
    ∃ found, next.scopes.get? scope = some found ∧ found.parent = some parent := by
  obtain ⟨before, behind, rfl⟩ := List.append_of_mem hopens
  obtain ⟨middle, hbefore, hrest⟩ := h.of_append
  have hmiddle : middle.scopes.get? scope = none := by
    rw [← Option.not_isSome_iff_eq_none]
    intro hsome
    rcases hbefore.get?_before hsome with hold | ⟨other, hother⟩
    · rw [hnone] at hold
      cases hold
    · have hfirst := openings_pos hother
      have hsecond : 0 < openings scope (.opens scope parent :: behind) :=
        openings_pos List.mem_cons_self
      rw [openings_append] at honce
      omega
  cases hrest with
  | cons hquiet hstep hbehind =>
    cases hstep with
    | opens _ =>
      rw [← hquiet.scopes] at hmiddle
      exact hbehind.lasts.scopes.scope _ _ (Scopes.get?_register_self _ _ hmiddle)

/-- The frames of a spot that is led to are the chain of its scope. -/
theorem Leads.chain {scopes : Scopes} (h : Leads acts outer spot)
    (houter : Scopes.Chain scopes outer.scope (outer.frames.map Frame.scope))
    (hparent : ∀ scope parent, .opens scope parent ∈ acts →
      ∃ found, scopes.get? scope = some found ∧ found.parent = some parent) :
    Scopes.Chain scopes spot.scope (spot.frames.map Frame.scope) := by
  induction h with
  | here => exact houter
  | inside ahead _ hopens ih =>
    obtain ⟨found, hfound, hparent⟩ := hparent _ _ hopens
    exact .inside hfound hparent ih

/-- The frames of a spot at which a script assigns are the scopes around, when the script is
    done. -/
theorem Performed.chain_eq_frames (haside : Aside root) (hids : (root.nodes.map Node.id).Nodup)
    (h : Performed (.begun base root) (scriptCourse root) last)
    (hassigns : .assigns source left spot ∈ scriptCourse root) :
    last.scopes.chain spot.scope = spot.frames.map Frame.scope := by
  have hnested : last.scopes.Nested := h.lasts.nested (Scopes.nested_register_empty root.id)
  have hparent : ∀ scope parent, .opens scope parent ∈ scriptCourse root →
      ∃ found, last.scopes.get? scope = some found ∧ found.parent = some parent := by
    intro scope parent hopens
    obtain ⟨-, horderly, -⟩ := orderly_scriptCourse scope haside
    have hpos := openings_pos hopens
    have honce : occurrences scope root ≤ 1 := List.nodup_iff_count_le_one.1 hids scope
    rw [occurrences_eq] at honce
    have hother : root.id ≠ scope := by
      intro hsame
      rw [if_pos hsame] at honce
      omega
    refine h.parent_of_opens ?_ (by omega) hopens
    exact Scopes.get?_register_of_ne .empty none hother
  obtain ⟨ahead, -, hleads⟩ := orderly_scriptCourse root.id haside
  obtain ⟨scope, hscope, hnone⟩ := hnested.outermost root.id h.lasts.scopes.root
  have hchain := (hleads source left spot hassigns).chain (.outermost hscope hnone) hparent
  exact (hnested.chain (hchain.isSome_get? _ hchain.mem_self)).unique hchain

end Capabilities.Inference
