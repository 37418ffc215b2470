import ExecContext.Constant.Table

/-!
# Core constants

The constants that an engine defines for every program on request: its version,
the host it runs on, the limits of integers, the path separators and the error
levels.  Each error level is one bit, and `E_ALL` is all of them.
-/

namespace ExecContext

namespace ConstantTable

/-- The core constants with their values, the host being Linux. -/
def core : List (ByteString × Value) :=
  [ ("PHP_VERSION", Value.ofString "8.2.0"),
    ("PHP_VERSION_ID", .int 80200),
    ("PHP_MAJOR_VERSION", .int 8),
    ("PHP_MINOR_VERSION", .int 2),
    ("PHP_RELEASE_VERSION", .int 0),
    ("PHP_EXTRA_VERSION", Value.ofString ""),
    ("PHP_OS", Value.ofString "Linux"),
    ("PHP_EOL", Value.ofString "\n"),
    ("PHP_INT_MAX", .int Int64.maxValue),
    ("PHP_INT_MIN", .int Int64.minValue),
    ("PHP_INT_SIZE", .int 8),
    ("DIRECTORY_SEPARATOR", Value.ofString "/"),
    ("PATH_SEPARATOR", Value.ofString ":"),
    ("E_ERROR", .int 1),
    ("E_WARNING", .int 2),
    ("E_PARSE", .int 4),
    ("E_NOTICE", .int 8),
    ("E_CORE_ERROR", .int 16),
    ("E_CORE_WARNING", .int 32),
    ("E_COMPILE_ERROR", .int 64),
    ("E_COMPILE_WARNING", .int 128),
    ("E_USER_ERROR", .int 256),
    ("E_USER_WARNING", .int 512),
    ("E_USER_NOTICE", .int 1024),
    ("E_STRICT", .int 2048),
    ("E_RECOVERABLE_ERROR", .int 4096),
    ("E_DEPRECATED", .int 8192),
    ("E_USER_DEPRECATED", .int 16384),
    ("E_ALL", .int 32767) ].map fun e => (ByteString.ofString e.1, e.2)

end ConstantTable

end ExecContext
