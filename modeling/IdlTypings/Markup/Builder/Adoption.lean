import IdlTypings.Markup.Builder

/-!
# Closing formatting elements

A formatting element may be closed while blocks inside it are open. The blocks then move out of it,
and what they hold is formatted by copies of the elements in between.
-/

namespace IdlTypings.Markup.Builder

/-- Closes the innermost open element of a name, unless a special element is inside it. -/
def closeOther (b : Builder) (name : String) : Builder :=
  let rec below (stack : List Nat) : Option (List Nat) :=
    match stack with
    | [] => none
    | i :: rest =>
      if b.arena.name i == name then some rest else if b.isSpecial i then none else below rest
  match below b.stack with
  | some stack => { b with stack }
  | none => b

/-- What the walk from a block outward has come to: the node that moves, the formatting elements,
earliest first, and the place among them where a copy of the closed one belongs. -/
structure Walk where
  builder : Builder
  last : Nat
  formatting : List (Option Nat)
  bookmark : Nat

/-- One element between the block and the closed element, the `count`th. -/
def walkStep (block count : Nat) (w : Walk) (node : Nat) : Walk :=
  match w.formatting.findIdx? (· == some node) with
  | none =>
    { w with builder := { w.builder with stack := w.builder.stack.filter (· != node) } }
  | some k =>
    if count > 3 then
      { w with
        formatting := w.formatting.eraseIdx k
        bookmark := if k ≤ w.bookmark then w.bookmark - 1 else w.bookmark }
    else
      let (b, copy) := w.builder.copy node
      let arena := (b.arena.detach w.last).append copy w.last
      let stack := b.stack.map fun i => if i == node then copy else i
      { builder := { b with arena, stack }
        last := copy
        formatting := w.formatting.set k (some copy)
        bookmark := if w.last == block then k + 1 else w.bookmark }

/-- All elements between the block and the closed element, from the block outward. -/
def walkAll (block : Nat) : Nat → Walk → List Nat → Walk
  | _, w, [] => w
  | count, w, node :: nodes => walkAll block (count + 1) (walkStep block count w node) nodes

/-- Moves the block inside the closed element `target` out of it. -/
def adoptBlock (b : Builder) (target block : Nat) : Builder :=
  let outer := b.stack.dropWhile (· != target)
  let ancestor := outer.tail.headD 0
  let between := ((b.stack.dropWhile (· != block)).tail).takeWhile (· != target)
  let earliest := b.formatting.reverse
  let w := walkAll block 1 ⟨b, block, earliest, earliest.findIdx (· == some target)⟩ between
  let b := { w.builder with arena := w.builder.arena.detach w.last }
  let b :=
    if tableNames.contains (b.arena.name ancestor) then b.foster w.last
    else { b with arena := b.arena.append ancestor w.last }
  let (b, copy) := b.copy target
  let arena := (b.arena.moveChildren copy block).append block copy
  let place := w.formatting.findIdx? (· == some target)
  let bookmark :=
    match place with
    | some k => if k < w.bookmark then w.bookmark - 1 else w.bookmark
    | none => w.bookmark
  let formatting := (w.formatting.filter (· != some target)).insertIdx bookmark (some copy)
  let stack := (b.stack.filter (· != target)).flatMap fun i => if i == block then [copy, i] else [i]
  { b with arena, stack, formatting := formatting.reverse }

/-- Closes a formatting element of a name, with at most `n` blocks inside it. -/
def closeFormattingLoop (name : String) : Nat → Builder → Builder
  | 0, b => b
  | n + 1, b =>
    let marked := b.formatting.takeWhile Option.isSome
    match (marked.filterMap id).find? fun i => b.arena.name i == name with
    | none => b.closeOther name
    | some target =>
      if !b.stack.contains target then
        { b with formatting := b.formatting.filter (· != some target) }
      else if !b.inScope .ordinary [name] then b
      else
        match ((b.stack.takeWhile (· != target)).reverse).find? b.isSpecial with
        | none =>
          { b with
            stack := (b.stack.dropWhile (· != target)).tail
            formatting := b.formatting.filter (· != some target) }
        | some block => closeFormattingLoop name n (b.adoptBlock target block)

def closeFormatting (b : Builder) (name : String) : Builder :=
  if b.topName == name && !b.formatting.contains (some b.top) then b.pop
  else closeFormattingLoop name 8 b

end IdlTypings.Markup.Builder
