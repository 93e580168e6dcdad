import Pandora.Fs.State

/-!
# Paths (`fs/pparser.c`)

A path is the list of its characters, none of them null. `pathparser_parse` allocates the root of the
parsed path, and for every part a string and a structure; the parts are linked through `next`. It
ends at the first empty part, or where memory runs out.

Every part that is read takes at least one character, so `path.length` bounds the number of parts.
`pathparser_free` follows the links: `none` is a list of more parts than a path can have.
-/

namespace Pandora

open ByteMem

def ebadpath : Int := 4

/-! ## Strings -/

def isdigit (c : UInt8) : Bool := 48 ≤ c && c ≤ 57

def tonumericdigit (c : UInt8) : Int := (c.toNat : Int) - 48

/-- The character `/` -/
def slash : UInt8 := 0x2F

/-- The characters of the string at `a`. -/
def Fs.stringAt (K : Fs) (a : Nat) : Nat → UInt8 := fun i => K.mem (a + i)

/-! ## Parsing -/

def pathparserPathValidFormat (path : List UInt8) : Bool :=
  min path.length maxPath ≥ 3 && isdigit (path.getD 0 0) &&
    (path.getD 1 0 = 0x3A && path.getD 2 0 = slash)

/-- The drive and the path behind it. -/
def pathparserGetDriveByPath (path : List UInt8) : Int × List UInt8 :=
  if !pathparserPathValidFormat path then (-ebadpath, path)
  else (tonumericdigit (path.getD 0 0), path.drop 3)

def pathparserCreateRoot (K : Fs) (driveNumber : Int) : Nat × Fs :=
  let (pathR, K) := K.kzalloc sizeofPathRoot
  if pathR = 0 then (0, K) else (pathR, K.setPathRoot pathR ⟨driveNumber, 0⟩)

/-- The string and the path behind the part. -/
def pathparserGetPathPart (K : Fs) (path : List UInt8) : Nat × List UInt8 × Fs :=
  let (resultPathPart, K) := K.kzalloc maxPath
  if resultPathPart = 0 then (0, path, K)
  else
    let part := path.takeWhile fun c => c ≠ slash ∧ c ≠ 0
    let path := path.drop part.length
    let K := K.setMem (writeBytes K.mem resultPathPart part)
    let path := if path.headD 0 = slash then path.tail else path
    if part.length = 0 then (0, path, K.kfree resultPathPart) else (resultPathPart, path, K)

/-- The part and the path behind it. -/
def pathparserParsePathPart (K : Fs) (lastPart : Nat) (path : List UInt8) : Nat × List UInt8 × Fs :=
  let (pathPartStr, path, K) := pathparserGetPathPart K path
  if pathPartStr = 0 then (0, path, K)
  else
    let (part, K) := K.kzalloc sizeofPathPart
    if part = 0 then (0, path, K.kfree pathPartStr)
    else
      let K := K.setPathPart part ⟨pathPartStr, 0⟩
      let K := if lastPart ≠ 0 then
          (K.follow lastPart).setPathPart lastPart { K.pathPartAt lastPart with next := part }
        else K
      (part, path, K)

/-- The loop of `pathparser_parse`: at most `n` parts are left. -/
def pathparserParse.loop : (n : Nat) → Fs → (part : Nat) → List UInt8 → Fs
  | 0, K, _, _ => K
  | n + 1, K, part, path =>
    let (part, path, K) := pathparserParsePathPart K part path
    if part = 0 then K else loop n K part path

def pathparserParse (K : Fs) (path : List UInt8) : Nat × Fs :=
  if path.length > maxPath then (0, K)
  else
    let (res, tmpPath) := pathparserGetDriveByPath path
    if res < 0 then (0, K)
    else
      let (pathRoot, K) := pathparserCreateRoot K res
      if pathRoot = 0 then (0, K)
      else
        let (firstPart, tmpPath, K) := pathparserParsePathPart K 0 tmpPath
        if firstPart = 0 then (0, K.kfree pathRoot)
        else
          let K := K.setPathRoot pathRoot { K.pathRootAt pathRoot with first := firstPart }
          (pathRoot, pathparserParse.loop (tmpPath.length + 1) K firstPart tmpPath)

/-! ## Release -/

/-- The loop of `pathparser_free`: `n` parts may be left. -/
def pathparserFree.loop : (n : Nat) → Fs → (part : Nat) → Option Fs
  | 0, K, part => if part = 0 then some K else none
  | n + 1, K, part =>
    if part = 0 then some K
    else
      let K := K.follow part
      let nextPart := (K.pathPartAt part).next
      let K := K.kfree (K.pathPartAt part).part
      loop n (K.kfree part) nextPart

def pathparserFree (K : Fs) (root : Nat) : Option Fs :=
  let K := K.follow root
  match pathparserFree.loop maxPath K (K.pathRootAt root).first with
  | none => none
  | some K => some (K.kfree root)

end Pandora
