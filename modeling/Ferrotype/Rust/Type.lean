/-
# Types

A type expression is already sorted by what it serializes to: sequences, sets and maps whatever
their container, optional values, tuples, primitives, and paths to other types. Wrappers such as
`Box` and `Arc` do not appear; they stand for what they hold.

`classify` sorts a path with its arguments. The last segment decides, so that
`std::collections::HashMap` and `HashMap` are the same; `serde_json::Value` alone has to be written
in full. A name with the wrong number of arguments stays a path.
-/

import Ferrotype.Text.Pieces

namespace Ferrotype
namespace Rust

/-- A type expression. -/
inductive TypeExpr
  /-- A named type with its type arguments. -/
  | path (name : String) (args : List TypeExpr)
  /-- A scalar type. -/
  | primitive (name : String)
  /-- A value that may be absent. -/
  | option (inner : TypeExpr)
  /-- A collection in order: a vector, an array or a slice. -/
  | sequence (element : TypeExpr)
  /-- A collection without repetition. -/
  | set (element : TypeExpr)
  /-- A collection of values by key. -/
  | map (key value : TypeExpr)
  /-- A tuple. -/
  | tuple (elements : List TypeExpr)
  /-- A type kept as its text, such as a function pointer. -/
  | verbatim (text : String)
  /-- A type of no known form, with a label for messages. -/
  | unknown (label : String)
deriving Repr, BEq, Inhabited

/-- The scalar types and what they are written as in TypeScript. -/
def scalars : List (String × String) :=
  [("i8", "number"), ("i16", "number"), ("i32", "number"), ("i64", "number"),
   ("i128", "number"), ("isize", "number"), ("u8", "number"), ("u16", "number"),
   ("u32", "number"), ("u64", "number"), ("u128", "number"), ("usize", "number"),
   ("f32", "number"), ("f64", "number"), ("bool", "boolean"), ("String", "string"),
   ("str", "string"), ("char", "string"), ("Path", "string"), ("PathBuf", "string"),
   ("Uuid", "string"), ("NaiveDate", "string"), ("NaiveTime", "string"),
   ("NaiveDateTime", "string"), ("DateTime", "string"), ("()", "null"), ("!", "never"),
   ("serde_json::Value", "unknown")]

/-- The scalar that is only known by its full path. -/
def qualifiedScalar : String := "serde_json::Value"

/-- What a container is by the last segment of its path. -/
inductive Container
  | option | sequence | set | map
  /-- Stands for what it holds. -/
  | transparent
  /-- A moment in time, a string whatever its argument. -/
  | moment
deriving Repr, DecidableEq

/-- The containers by name. -/
def containers : List (String × Container) :=
  [("Option", .option),
   ("Vec", .sequence), ("VecDeque", .sequence), ("LinkedList", .sequence),
   ("BinaryHeap", .sequence), ("SmallVec", .sequence),
   ("HashSet", .set), ("BTreeSet", .set), ("IndexSet", .set), ("FxHashSet", .set),
   ("HashMap", .map), ("BTreeMap", .map), ("IndexMap", .map), ("FxHashMap", .map),
   ("Box", .transparent), ("Rc", .transparent), ("Arc", .transparent), ("Cow", .transparent),
   ("Cell", .transparent), ("RefCell", .transparent), ("Mutex", .transparent),
   ("RwLock", .transparent),
   ("DateTime", .moment)]

namespace TypeExpr

/-- A name that is no container: a scalar if it has no arguments. -/
def ofName (name : String) (args : List TypeExpr) : TypeExpr :=
  if args.isEmpty && (scalars.lookup name).isSome then primitive name else path name args

/-- A type path with its arguments, sorted by its last segment. -/
def classify (fullPath : String) (args : List TypeExpr) : TypeExpr :=
  if fullPath = qualifiedScalar then primitive fullPath
  else
    let name := Text.lastSegment fullPath
    match containers.lookup name, args with
    | some .option, [inner] => option inner
    | some .sequence, element :: _ => sequence element
    | some .set, element :: _ => set element
    | some .map, key :: value :: _ => map key value
    | some .transparent, held :: more => (held :: more).getLast (List.cons_ne_nil _ _)
    | some .moment, _ => primitive name
    | _, _ => ofName name args

end TypeExpr

end Rust
end Ferrotype
