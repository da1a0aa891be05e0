import Mathlib.Data.List.DropRight
import Mathlib.Data.List.SplitBy
import Capabilities.Docs.Preceding
import Capabilities.Script.Parse
import Capabilities.Proofs.Text.Slice

/-!
# The comments that stand before a place

A comment belongs to what follows it if nothing but blanks stands between the two and, where it
ends with its line, if it has the line for itself. `Attached` says this of a run of comments and
the place behind it, `Joined` when two `//` comments are one below the other, and `Preceding` what
the blocks before a place are: the longest attached run of comments up to there, cut where two
neighbours are not joined. `commentsBefore` finds just these blocks in every tree whose nodes are
laid out over the text, so it does not matter in which of the blanks behind a comment one asks.
-/

namespace Capabilities.Script.Node

/-! ### The comments of a tree -/

def subtree (node : Node) : List Node :=
  node.fold fun node parts => node :: parts.flatMap (·.2)

theorem subtree_eq (node : Node) : node.subtree = node :: node.children.flatMap subtree := by
  unfold subtree
  rw [fold_eq, List.flatMap_map]

def comments (node : Node) : List Node := (node.children.flatMap subtree).filter (·.isComment)

end Capabilities.Script.Node

namespace Capabilities.Docs

open Script Text

/-! ### Trees over a text -/

/-- A node stands between characters of the text, its children follow one another in it, and a
    comment is a token that is not blank. -/
structure LaidOut (text : List Char) (node : Node) : Prop where
  cut : (slice? text node.start node.stop).isSome = true
  ordered : node.children.Pairwise fun child next => child.stop ≤ next.start
  within : ∀ child ∈ node.children, node.start ≤ child.start ∧ child.stop ≤ node.stop
  token : node.isComment = true → node.children = [] ∧
    slice? text node.start node.stop = some node.lexeme.toList ∧
    allBlank node.lexeme.toList = false

instance (text : List Char) (node : Node) : Decidable (LaidOut text node) :=
  decidable_of_iff
    ((slice? text node.start node.stop).isSome = true ∧
      (node.children.Pairwise fun child next => child.stop ≤ next.start) ∧
      (∀ child ∈ node.children, node.start ≤ child.start ∧ child.stop ≤ node.stop) ∧
      (node.isComment = true → node.children.isEmpty = true ∧
        slice? text node.start node.stop = some node.lexeme.toList ∧
        allBlank node.lexeme.toList = false))
    ⟨fun ⟨cut, ordered, within, token⟩ => ⟨cut, ordered, within, fun h =>
        ⟨List.isEmpty_iff.1 (token h).1, (token h).2⟩⟩,
      fun h => ⟨h.cut, h.ordered, h.within, fun hcomment =>
        ⟨List.isEmpty_iff.2 (h.token hcomment).1, (h.token hcomment).2⟩⟩⟩

/-- Every node of a tree is laid out over the text. -/
def Spans (text : List Char) (root : Node) : Prop := ∀ node ∈ root.subtree, LaidOut text node

variable {text : List Char} {root node child comment next : Node} {offset stop : Nat}
  {comments before : List Node} {blocks : List (List Node)}

namespace Spans

theorem self (h : Spans text root) : LaidOut text root :=
  h root (root.subtree_eq ▸ List.mem_cons_self)

theorem of_mem (h : Spans text root) (hchild : child ∈ root.children) : Spans text child := by
  intro node hnode
  refine h node ?_
  rw [root.subtree_eq]
  exact List.mem_cons_of_mem _ (List.mem_flatMap.2 ⟨child, hchild, hnode⟩)

/-- What lies below a node lies within it. -/
theorem within (h : Spans text root) :
    ∀ node ∈ root.subtree, root.start ≤ node.start ∧ node.stop ≤ root.stop := by
  induction root using Node.induction with
  | step root ih =>
    intro node hnode
    rw [root.subtree_eq] at hnode
    rcases List.mem_cons.1 hnode with rfl | hnode
    · exact ⟨le_rfl, le_rfl⟩
    · obtain ⟨child, hchild, hnode⟩ := List.mem_flatMap.1 hnode
      obtain ⟨hstart, hstop⟩ := h.self.within child hchild
      obtain ⟨hbegin, hend⟩ := ih child hchild (h.of_mem hchild) node hnode
      exact ⟨hstart.trans hbegin, hend.trans hstop⟩

end Spans

namespace LaidOut

theorem start_le (h : LaidOut text node) : node.start ≤ node.stop := by
  obtain ⟨stretch, hcut⟩ := Option.isSome_iff_exists.1 h.cut
  exact le_of_slice? hcut

/-- A comment is not empty. -/
theorem start_lt (h : LaidOut text comment) (hcomment : comment.isComment = true) :
    comment.start < comment.stop := by
  obtain ⟨-, hcut, hblank⟩ := h.token hcomment
  refine lt_of_slice? hcut fun hempty => ?_
  rw [hempty] at hblank
  cases hblank

end LaidOut

theorem mem_comments : comment ∈ root.comments ↔
    comment.isComment = true ∧ ∃ child ∈ root.children, comment ∈ child.subtree := by
  unfold Node.comments
  rw [List.mem_filter, List.mem_flatMap, and_comm]

theorem Spans.of_mem_comments (h : Spans text root) (hcomment : comment ∈ root.comments) :
    LaidOut text comment ∧ comment.isComment = true := by
  obtain ⟨hkind, child, hchild, hbelow⟩ := mem_comments.1 hcomment
  exact ⟨h.of_mem hchild comment hbelow, hkind⟩

/-- The comments in the subtree of a node are the node itself or the ones below it. -/
theorem filter_subtree (h : LaidOut text node) :
    node.subtree.filter (·.isComment) =
      if node.isComment = true then [node] else node.comments := by
  rw [node.subtree_eq, Node.comments]
  split
  · rename_i hcomment
    rw [(h.token hcomment).1, List.filter_cons_of_pos hcomment]
    rfl
  · rename_i hother
    rw [List.filter_cons_of_neg hother]

/-! ### Collecting -/

theorem commentsUpTo_eq (offset : Nat) (node : Node) :
    commentsUpTo offset node = commentsAmong offset node.children := by
  cases node
  simp only [commentsUpTo]

/-- Nothing below siblings that begin behind an offset ends before it. -/
theorem filter_eq_nil_of_le {siblings : List Node} (h : ∀ child ∈ siblings, Spans text child)
    (hbehind : ∀ child ∈ siblings, offset ≤ child.start) :
    ((siblings.flatMap Node.subtree).filter (·.isComment)).filter (·.stop ≤ offset) = [] := by
  rw [List.filter_eq_nil_iff]
  intro comment hcomment
  obtain ⟨hbelow, hkind⟩ := List.mem_filter.1 hcomment
  obtain ⟨child, hchild, hbelow⟩ := List.mem_flatMap.1 hbelow
  have hlt := (h child hchild comment hbelow).start_lt hkind
  have hstart := ((h child hchild).within comment hbelow).1
  have hoffset := hbehind child hchild
  rw [decide_eq_true_iff]
  omega

/-- Siblings are passed over only where no comment can end up to the offset. -/
theorem commentsAmong_eq {siblings : List Node} (h : ∀ child ∈ siblings, Spans text child)
    (hordered : siblings.Pairwise fun child next => child.stop ≤ next.start)
    (hbelow : ∀ child ∈ siblings,
      commentsUpTo offset child = child.comments.filter (·.stop ≤ offset)) :
    commentsAmong offset siblings =
      ((siblings.flatMap Node.subtree).filter (·.isComment)).filter (·.stop ≤ offset) := by
  induction siblings with
  | nil => rfl
  | cons child siblings ih =>
    obtain ⟨hnext, hrest⟩ := List.pairwise_cons.1 hordered
    have hself := (h child List.mem_cons_self).self
    have hsiblings := ih (fun child hchild => h child (List.mem_cons_of_mem _ hchild)) hrest
      fun child hchild => hbelow child (List.mem_cons_of_mem _ hchild)
    rw [commentsAmong]
    split
    · rename_i hbehind
      refine (filter_eq_nil_of_le h fun other hother => ?_).symm
      rcases List.mem_cons.1 hother with rfl | hother
      · exact hbehind
      · exact hbehind.le.trans (hself.start_le.trans (hnext other hother))
    · rw [List.flatMap_cons, List.filter_append, List.filter_append, filter_subtree hself,
        hsiblings]
      split
      · split
        · rename_i hstop
          simp only [List.filter_singleton, hstop, decide_true, cond_true, List.singleton_append]
        · rename_i hstop
          simp only [List.filter_singleton, hstop, decide_false, cond_false, List.nil_append]
      · rw [hbelow child List.mem_cons_self]

/-- What is collected is the comments that end at or before the offset. -/
theorem commentsUpTo_eq_filter (h : Spans text root) (offset : Nat) :
    commentsUpTo offset root = root.comments.filter (·.stop ≤ offset) := by
  induction root using Node.induction with
  | step root ih =>
    rw [commentsUpTo_eq]
    exact commentsAmong_eq (fun child hchild => h.of_mem hchild) h.self.ordered
      fun child hchild => ih child hchild (h.of_mem hchild)

/-- Comments come in the order of the text. -/
theorem comments_ordered (h : Spans text root) :
    root.comments.Pairwise fun comment next => comment.stop ≤ next.start := by
  induction root using Node.induction with
  | step root ih =>
    unfold Node.comments
    rw [List.filter_flatMap, List.pairwise_flatMap]
    constructor
    · intro child hchild
      rw [filter_subtree (h.of_mem hchild).self]
      split
      · exact List.pairwise_singleton _ _
      · exact ih child hchild (h.of_mem hchild)
    · refine h.self.ordered.imp_of_mem fun hchild hnext hle comment hcomment other hother => ?_
      have hend := ((h.of_mem hchild).within comment (List.mem_filter.1 hcomment).1).2
      have hbegin := ((h.of_mem hnext).within other (List.mem_filter.1 hother).1).1
      exact hend.trans (hle.trans hbegin)

/-! ### Attached comments -/

def BlankBetween (text : List Char) (start stop : Nat) : Prop :=
  ∃ gap, slice? text start stop = some gap ∧ allBlank gap = true

/-- Only blanks stand between a comment and the line feed, or the front of the text, before it. -/
def StartsLine (text : List Char) (comment : Node) : Prop :=
  ∃ above blanks, above ++ blanks <+: text ∧ String.utf8Len (above ++ blanks) = comment.start ∧
    (∀ c ∈ above.getLast?, c = '\n') ∧ allBlank blanks = true

/-- A run of comments has only blanks between them and behind them up to a place, and each that
    ends with its line starts one. -/
structure Attached (text : List Char) (stop : Nat) (comments : List Node) : Prop where
  apart : comments.IsChain fun comment next => BlankBetween text comment.stop next.start
  last : ∀ comment ∈ comments.getLast?, BlankBetween text comment.stop stop
  lines : ∀ comment ∈ comments, isLineComment comment = true → StartsLine text comment

/-- Two `//` comments stand one right below the other. -/
def Joined (text : List Char) (comment next : Node) : Prop :=
  isLineComment comment = true ∧ isLineComment next = true ∧
    ∃ gap, slice? text comment.stop next.start = some gap ∧ gap.count '\n' = 1

/-- A list cut into blocks: neighbours are related within a block and not across two. -/
structure Grouped (related : Node → Node → Prop) (blocks : List (List Node)) : Prop where
  nonempty : [] ∉ blocks
  inside : ∀ block ∈ blocks, block.IsChain related
  across : blocks.IsChain fun block other =>
    ∀ comment ∈ block.getLast?, ∀ next ∈ other.head?, ¬ related comment next

/-- The blocks before a place, of the comments up to there. -/
structure Preceding (text : List Char) (comments : List Node) (stop : Nat)
    (blocks : List (List Node)) : Prop where
  suffix : blocks.flatten <:+ comments
  attached : Attached text stop blocks.flatten
  longest : ∀ others, others <:+ comments → Attached text stop others → others <:+ blocks.flatten
  grouped : Grouped (Joined text) blocks

/-! ### Cutting into blocks -/

namespace Grouped

variable {related : Node → Node → Prop} {block : List Node} {rest : List (List Node)}

/-- A comment that is not related to the next one begins a block of its own. -/
theorem cons (h : Grouped related blocks)
    (hnext : ∀ next ∈ blocks.flatten.head?, ¬ related comment next) :
    Grouped related ([comment] :: blocks) := by
  refine ⟨?_, ?_, ?_⟩
  · rw [List.mem_cons, not_or]
    exact ⟨(List.cons_ne_nil _ _).symm, h.nonempty⟩
  · intro block hblock
    rcases List.mem_cons.1 hblock with rfl | hblock
    · exact List.isChain_singleton _
    · exact h.inside block hblock
  · refine List.isChain_cons.2 ⟨?_, h.across⟩
    intro block hblock last hlast next hhead
    rw [List.getLast?_singleton, Option.mem_some_iff] at hlast
    subst hlast
    obtain ⟨rest, rfl⟩ := List.head?_eq_some_iff.1 hblock
    obtain ⟨others, rfl⟩ := List.head?_eq_some_iff.1 hhead
    exact hnext next rfl

/-- A comment that is related to the next one joins its block. -/
theorem join (h : Grouped related ((next :: block) :: rest)) (hnext : related comment next) :
    Grouped related ((comment :: next :: block) :: rest) := by
  obtain ⟨hblock, hrest⟩ := List.isChain_cons.1 h.across
  refine ⟨?_, ?_, ?_⟩
  · rw [List.mem_cons, not_or]
    exact ⟨(List.cons_ne_nil _ _).symm, fun hnil => h.nonempty (List.mem_cons_of_mem _ hnil)⟩
  · intro other hother
    rcases List.mem_cons.1 hother with rfl | hother
    · exact List.isChain_cons_cons.2 ⟨hnext, h.inside _ List.mem_cons_self⟩
    · exact h.inside other (List.mem_cons_of_mem _ hother)
  · refine List.isChain_cons.2 ⟨fun other hother last hlast => ?_, hrest⟩
    rw [List.getLast?_cons_cons] at hlast
    exact hblock other hother last hlast

/-- There is only one way to cut a list. -/
theorem unique (h : Grouped related blocks) {others : List (List Node)}
    (hothers : Grouped related others) (hflatten : blocks.flatten = others.flatten) :
    blocks = others := by
  classical
  have hsplit : ∀ {blocks : List (List Node)}, Grouped related blocks →
      blocks.flatten.splitBy (fun comment next => decide (related comment next)) = blocks := by
    intro blocks h
    refine List.splitBy_flatten h.nonempty ?_ ?_
    · intro block hblock
      exact (h.inside block hblock).imp fun _ _ => decide_eq_true
    · refine h.across.imp_of_mem_imp ?_
      intro block other hblock hother hacross
      have hne : block ≠ [] := fun hnil => h.nonempty (hnil ▸ hblock)
      have hnext : other ≠ [] := fun hnil => h.nonempty (hnil ▸ hother)
      refine ⟨hne, hnext, decide_eq_false ?_⟩
      exact hacross _ (List.getLast?_eq_some_getLast hne) _ (List.head?_eq_some_head hnext)
  rw [← hsplit h, hflatten, hsplit hothers]

end Grouped

/-! ### Gathering -/

/-- Where a run of comments begins, or the place behind it if there are none. -/
def startOr (stop : Nat) : List Node → Nat
  | [] => stop
  | comment :: _ => comment.start

/-- What makes a comment belong to what begins at an offset. -/
def Attaches (text : List Char) (comment : Node) (stop : Nat) : Prop :=
  BlankBetween text comment.stop stop ∧
    (isLineComment comment = true → StartsLine text comment)

theorem attached_nil (text : List Char) (stop : Nat) : Attached text stop [] :=
  ⟨List.isChain_nil, nofun, nofun⟩

theorem attached_cons : Attached text stop (comment :: comments) ↔
    Attaches text comment (startOr stop comments) ∧ Attached text stop comments := by
  cases comments with
  | nil =>
    constructor
    · intro h
      exact ⟨⟨h.last comment rfl, h.lines comment List.mem_cons_self⟩, attached_nil _ _⟩
    · rintro ⟨⟨hblank, hline⟩, -⟩
      refine ⟨List.isChain_singleton _, ?_, ?_⟩
      · rintro last ⟨rfl⟩
        exact hblank
      · intro other hother
        rw [List.mem_singleton.1 hother]
        exact hline
  | cons next comments =>
    constructor
    · intro h
      obtain ⟨hblank, hapart⟩ := List.isChain_cons_cons.1 h.apart
      refine ⟨⟨hblank, h.lines comment List.mem_cons_self⟩, hapart, ?_, ?_⟩
      · rw [← List.getLast?_cons_cons (a := comment)]
        exact h.last
      · exact fun other hother => h.lines other (List.mem_cons_of_mem _ hother)
    · rintro ⟨⟨hblank, hline⟩, h⟩
      refine ⟨List.isChain_cons_cons.2 ⟨hblank, h.apart⟩, ?_, ?_⟩
      · rw [List.getLast?_cons_cons]
        exact h.last
      · intro other hother
        rcases List.mem_cons.1 hother with rfl | hother
        · exact hline
        · exact h.lines other hother

theorem Attached.of_suffix (h : Attached text stop comments) {others : List Node}
    (hothers : others <:+ comments) : Attached text stop others := by
  obtain ⟨front, rfl⟩ := hothers
  induction front with
  | nil => exact h
  | cons comment front ih => exact ih (attached_cons.1 h).2

theorem startsLine_iff : startsLine text comment = true ↔ StartsLine text comment := by
  unfold startsLine StartsLine
  constructor
  · intro h
    split at h
    · rename_i front hfront
      obtain ⟨hbegins, hwidth⟩ := takeBytes?_eq_some_iff.1 hfront
      refine ⟨front.rdropWhile (· != '\n'), front.rtakeWhile (· != '\n'), ?_, ?_, ?_, ?_⟩
      · rwa [List.rdropWhile_append_rtakeWhile]
      · rwa [List.rdropWhile_append_rtakeWhile]
      · intro c hc
        obtain ⟨hne, rfl⟩ := List.mem_getLast?_eq_getLast hc
        simpa using List.rdropWhile_last_not _ _ hne
      · rw [List.rtakeWhile, allBlank, List.all_reverse]
        exact h
    · cases h
  · rintro ⟨above, blanks, hbegins, hwidth, habove, hblank⟩
    rw [takeBytes?_eq_some_iff.2 ⟨hbegins, hwidth⟩]
    have hstop : above.reverse.takeWhile (· != '\n') = [] := by
      cases hlast : above.getLast? with
      | none => rw [List.getLast?_eq_none_iff.1 hlast]; rfl
      | some c =>
        obtain ⟨line, rfl⟩ := List.getLast?_eq_some_iff.1 hlast
        rw [habove c hlast, List.reverse_concat]
        rfl
    rw [allBlank, ← List.all_reverse, List.all_eq_true] at hblank
    simp only [List.reverse_append, List.takeWhile_append, hstop, List.append_nil, allBlank,
      List.all_eq_true]
    split
    · exact hblank
    · exact fun c hc => hblank c ((List.takeWhile_prefix _).subset hc)

/-- A comment that does not belong to what follows ends the search. -/
theorem gatherBlocks_cons_of_not (h : ¬ Attaches text comment stop) (before : List Node)
    (blocks : List (List Node)) : gatherBlocks text stop blocks (comment :: before) = blocks := by
  rw [gatherBlocks]
  split
  · rfl
  · rename_i gap hgap
    split
    · rfl
    · rename_i hblank
      split
      · rfl
      · rename_i hline
        refine absurd ⟨⟨gap, hgap, by simpa using hblank⟩, fun hcomment => ?_⟩ h
        rw [← startsLine_iff]
        simpa [hcomment] using hline

/-- A comment that belongs to what follows is put before it. -/
theorem gatherBlocks_cons_of_attaches (h : Attaches text comment (startOr stop blocks.flatten))
    (hgrouped : Grouped (Joined text) blocks) (before : List Node) :
    ∃ longer, gatherBlocks text (startOr stop blocks.flatten) blocks (comment :: before) =
        gatherBlocks text comment.start longer before ∧
      longer.flatten = comment :: blocks.flatten ∧ Grouped (Joined text) longer := by
  obtain ⟨⟨gap, hgap, hblank⟩, hline⟩ := h
  rw [← startsLine_iff] at hline
  have hstarts : (isLineComment comment && !startsLine text comment) = false := by
    cases hcomment : isLineComment comment with
    | false => rfl
    | true => rw [hline hcomment]; rfl
  simp only [gatherBlocks, hgap, hblank, hstarts, Bool.not_true, Bool.false_eq_true, if_false]
  split
  · rename_i next block rest
    by_cases hjoins : (isLineComment comment && gap.count '\n' == 1 && isLineComment next) = true
    · rw [if_pos hjoins]
      simp only [Bool.and_eq_true, beq_iff_eq] at hjoins
      exact ⟨_, rfl, rfl, hgrouped.join ⟨hjoins.1.1, hjoins.2, gap, hgap, hjoins.1.2⟩⟩
    · rw [if_neg hjoins]
      refine ⟨_, rfl, rfl, hgrouped.cons ?_⟩
      rintro _ ⟨rfl⟩ ⟨hcomment, hnext, other, hother, hcount⟩
      cases hgap.symm.trans hother
      exact hjoins (by simp only [hcomment, hnext, hcount, beq_self_eq_true, Bool.and_self])
  · rename_i hempty
    refine ⟨_, rfl, rfl, hgrouped.cons fun next hnext => ?_⟩
    match blocks with
    | [] => cases hnext
    | [] :: rest => exact absurd List.mem_cons_self hgrouped.nonempty
    | (first :: block) :: rest => exact absurd rfl (hempty first block rest)

/-- Gathering more comments before blocks that are attached. -/
theorem preceding_gatherBlocks (before : List Node) (hgrouped : Grouped (Joined text) blocks)
    (hattached : Attached text stop blocks.flatten) :
    Preceding text (before.reverse ++ blocks.flatten) stop
      (gatherBlocks text (startOr stop blocks.flatten) blocks before) := by
  induction before generalizing blocks with
  | nil => exact ⟨List.suffix_rfl, hattached, fun _ hothers _ => hothers, hgrouped⟩
  | cons comment before ih =>
    rw [List.reverse_cons, List.append_assoc, List.singleton_append]
    by_cases h : Attaches text comment (startOr stop blocks.flatten)
    · obtain ⟨longer, hgather, hflatten, hlonger⟩ :=
        gatherBlocks_cons_of_attaches h hgrouped before
      have hmore := ih hlonger (hflatten ▸ attached_cons.2 ⟨h, hattached⟩)
      rw [hflatten] at hmore
      rw [hgather]
      exact hmore
    · rw [gatherBlocks_cons_of_not h]
      refine ⟨(List.suffix_cons _ _).trans (List.suffix_append _ _), hattached, ?_, hgrouped⟩
      intro others hothers hattach
      rcases List.suffix_or_suffix_of_suffix hothers (List.suffix_append _ _) with hle | hge
      · rcases List.suffix_cons_iff.1 hle with rfl | hle
        · exact absurd (attached_cons.1 hattach).1 h
        · exact hle
      · exact absurd (attached_cons.1 (hattach.of_suffix hge)).1 h

/-! ### Asking from elsewhere -/

theorem allBlank_append {front behind : List Char} :
    allBlank (front ++ behind) = true ↔ allBlank front = true ∧ allBlank behind = true := by
  unfold allBlank
  rw [List.all_append, Bool.and_eq_true]

/-- More blanks do not matter. -/
theorem blankBetween_iff {start other : Nat} {gap : List Char}
    (hgap : slice? text stop other = some gap) (hblank : allBlank gap = true)
    (hstart : start ≤ stop) : BlankBetween text start stop ↔ BlankBetween text start other := by
  constructor
  · rintro ⟨lead, hlead, hleadBlank⟩
    exact ⟨lead ++ gap, slice?_append hlead hgap, allBlank_append.2 ⟨hleadBlank, hblank⟩⟩
  · rintro ⟨whole, hwhole, hwholeBlank⟩
    obtain ⟨lead, hlead, rfl⟩ := slice?_of_append hwhole hgap hstart
    exact ⟨lead, hlead, (allBlank_append.1 hwholeBlank).1⟩

/-- The blocks before a place depend on it only by which comments it lies behind. -/
theorem Preceding.unique {other : Nat} {others : List (List Node)}
    (h : Preceding text comments stop blocks) (hothers : Preceding text comments other others)
    (hsame : ∀ comment ∈ comments,
      BlankBetween text comment.stop stop ↔ BlankBetween text comment.stop other) :
    blocks = others := by
  have hto : Attached text other blocks.flatten :=
    ⟨h.attached.apart, fun comment hlast => (hsame comment (h.suffix.subset
      (List.mem_of_getLast? hlast))).1 (h.attached.last comment hlast), h.attached.lines⟩
  have hfrom : Attached text stop others.flatten :=
    ⟨hothers.attached.apart, fun comment hlast => (hsame comment (hothers.suffix.subset
      (List.mem_of_getLast? hlast))).2 (hothers.attached.last comment hlast),
      hothers.attached.lines⟩
  refine h.grouped.unique hothers.grouped ?_
  exact (hothers.longest _ h.suffix hto).eq_of_length_le
    (h.longest _ hothers.suffix hfrom).length_le

/-- An offset is not inside of a comment. -/
def Outside (root : Node) (offset : Nat) : Prop :=
  ∀ comment ∈ root.comments, offset ≤ comment.start ∨ comment.stop ≤ offset

theorem preceding_commentsBefore {text : String} (h : Spans text.toList root) (offset : Nat) :
    ∃ blocks, Preceding text.toList (root.comments.filter (·.stop ≤ offset))
        (min offset text.utf8ByteSize) blocks ∧
      commentsBefore root text offset = blocks.map blockText := by
  refine ⟨_, ?_, rfl⟩
  have hgrouped : Grouped (Joined text.toList) [] := ⟨List.not_mem_nil, nofun, List.isChain_nil⟩
  have hattached : Attached text.toList (min offset text.utf8ByteSize) (List.flatten []) :=
    attached_nil _ _
  have hgather := preceding_gatherBlocks (commentsUpTo offset root).reverse hgrouped hattached
  rw [List.reverse_reverse, List.flatten_nil, List.append_nil,
    commentsUpTo_eq_filter h] at hgather
  rw [commentsUpTo_eq_filter h]
  exact hgather

/-- No comment ends between two offsets with only blanks between them. -/
theorem filter_comments_eq {text : String} (h : Spans text.toList root) {other : Nat}
    {gap : List Char}
    (hgap : slice? text.toList (min offset text.utf8ByteSize) (min other text.utf8ByteSize) =
      some gap) (hblank : allBlank gap = true) (houtside : Outside root offset) :
    root.comments.filter (·.stop ≤ other) = root.comments.filter (·.stop ≤ offset) := by
  refine List.filter_congr fun comment hcomment => decide_eq_decide.2 ?_
  obtain ⟨hlaid, hkind⟩ := h.of_mem_comments hcomment
  obtain ⟨-, hcut, hsolid⟩ := hlaid.token hkind
  have hle := le_of_slice? hgap
  have hsize : comment.stop ≤ text.utf8ByteSize := by
    rw [← String.ofList_toList (s := text), String.utf8ByteSize_ofList]
    exact le_utf8Len_of_slice? hcut
  constructor
  · intro hstop
    rcases houtside comment hcomment with hstart | hdone
    · have hinside := infix_of_slice? hgap hcut (by omega) (by omega)
      obtain ⟨front, behind, rfl⟩ := hinside
      rw [allBlank_append, allBlank_append] at hblank
      rw [hblank.1.2] at hsolid
      cases hsolid
    · exact hdone
  · intro hstop
    omega

/-- The comment blocks before an offset are those of the longest run of comments attached to it,
    of all comments of the tree that end up to there, and stay the same as long as only blanks
    follow. -/
theorem commentsBefore_longest {text : String} (h : Spans text.toList root) (offset : Nat) :
    (root.comments.Pairwise fun comment next => comment.stop ≤ next.start) ∧
    (∃ blocks, Preceding text.toList (root.comments.filter (·.stop ≤ offset))
        (min offset text.utf8ByteSize) blocks ∧
      commentsBefore root text offset = blocks.map blockText) ∧
    ∀ other gap, slice? text.toList (min offset text.utf8ByteSize)
        (min other text.utf8ByteSize) = some gap → allBlank gap = true →
      Outside root offset →
      commentsBefore root text other = commentsBefore root text offset := by
  refine ⟨comments_ordered h, preceding_commentsBefore h offset, ?_⟩
  intro other gap hgap hblank houtside
  obtain ⟨blocks, hblocks, hbefore⟩ := preceding_commentsBefore h offset
  obtain ⟨others, hothers, hbeforeOther⟩ := preceding_commentsBefore h other
  rw [filter_comments_eq h hgap hblank houtside] at hothers
  rw [hbefore, hbeforeOther]
  refine congrArg _ (hothers.unique hblocks fun comment hcomment => ?_)
  refine (blankBetween_iff hgap hblank ?_).symm
  obtain ⟨hbelow, hstop⟩ := List.mem_filter.1 hcomment
  obtain ⟨hlaid, hkind⟩ := h.of_mem_comments hbelow
  have hsize := le_utf8Len_of_slice? (hlaid.token hkind).2.1
  rw [← String.utf8ByteSize_ofList, String.ofList_toList] at hsize
  exact le_min (of_decide_eq_true hstop) hsize

/-- A script with comments of both kinds, one of them behind code. -/
def remarkedScript : String :=
  "function main() \x7b\n  run(); // far\n  // one\n  // two\n  /* api */\n\n  plugin();\n\x7d"

theorem commentsBefore_remarkedScript :
    Spans remarkedScript.toList (parse remarkedScript) ∧
      Outside (parse remarkedScript) 63 ∧
      (∃ blocks, Preceding remarkedScript.toList
          ((parse remarkedScript).comments.filter (·.stop ≤ 67)) 67 blocks ∧
        blocks.map blockText = ["// one\n// two", "/* api */"]) ∧
      commentsBefore (parse remarkedScript) remarkedScript 67 =
        commentsBefore (parse remarkedScript) remarkedScript 63 := by
  have hspans : Spans remarkedScript.toList (parse remarkedScript) := by
    unfold Spans
    decide +kernel
  have houtside : Outside (parse remarkedScript) 63 := by
    unfold Outside
    decide +kernel
  have hbefore : commentsBefore (parse remarkedScript) remarkedScript 67 =
      ["// one\n// two", "/* api */"] := by decide +kernel
  obtain ⟨-, ⟨blocks, hblocks, htexts⟩, -⟩ := commentsBefore_longest hspans 67
  obtain ⟨-, -, hsame⟩ := commentsBefore_longest hspans 63
  refine ⟨hspans, houtside, ⟨blocks, hblocks, htexts ▸ hbefore⟩, ?_⟩
  exact hsame 67 ['\n', '\n', ' ', ' '] (by decide +kernel) (by decide +kernel) houtside

end Capabilities.Docs
